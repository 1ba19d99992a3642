import KnightLang.Arithmetic
import KnightLang.Evaluation.Coerce

/-!
The operations of the language. Each one receives the application it performs, whose arguments it
reads when it needs them, and gives back a value that its caller owns.
-/

namespace KnightLang.Evaluator

variable [Custody]

/-- The argument of an application at a position, unevaluated. -/
def operand (node : Nat) (position : Nat) : Run Value := return (← get).store.arg node position

/-- The failure to evaluate a source that cannot be parsed: one without an expression has a failure
of its own. -/
def missingExpression (label : Bytes) (error : Error) : Error :=
  if error = .endOfInput then
    { outer := .raised .noExpression { label }, causes := [.endOfInput] }
  else error

def evaluate (evaluator : Evaluator) (source : Source) (label : Bytes) : Run Value := do
  match ← Run.parseFrom source label with
  | (.ok value, _) => Run.deferring (Run.release value) (evaluator.run value)
  | (.error error, _) => throw (.error (missingExpression label error))

/-- Reads a line of input without its end; null when there is none. -/
def prompt : Run Value := do
  Run.flush
  let line ← modifyGet fun machine =>
    let (line, world) := machine.world.readLine
    (line, { machine with world })
  match line with
  | .done => return .null
  | .failed text => Run.raiseBecause .readingLine text
  | .line bytes =>
    let bytes := if bytes.getLast? == some Byte.newline then bytes.dropLast else bytes
    let bytes := Bytes.dropRightWhile (· == Byte.carriageReturn) bytes
    return .string (← Run.onStore (Store.intern bytes))

def random : Run Value := return .number (← Run.drawRandom)

def eval (evaluator : Evaluator) (node : Nat) : Run Value := do
  evaluator.withText (← operand node 0) fun text => do
    evaluator.evaluate { unread := (← get).store.bytes text } "EVAL"

def block (node : Nat) : Run Value := do
  let value ← operand node 0
  Run.retain value
  return value

def call (evaluator : Evaluator) (node : Nat) : Run Value := do
  let result ← evaluator.run (← operand node 0)
  if result.isLiteral then return result
  else Run.deferring (Run.release result) (evaluator.run result)

def shell (evaluator : Evaluator) (node : Nat) : Run Value := do
  evaluator.withText (← operand node 0) fun text => do
    let command := (← get).store.bytes text
    let result ← modifyGet fun machine =>
      let (result, world) := machine.world.runCommand command
      (result, { machine with world })
    match result with
    | .error text => Run.raiseBecause (.runningCommand command) text
    | .ok output => return .string (← Run.onStore (Store.intern output))

def quit (evaluator : Evaluator) (node : Nat) : Run Value := do
  let status ← evaluator.toNumber (← operand node 0)
  Run.log { level := .info, message := "quit", fields := [("status", Bytes.ofInt64 status)] }
  Run.raise (.quit status)

def not (evaluator : Evaluator) (node : Nat) : Run Value := do
  return .boolean (!(← evaluator.toBoolean (← operand node 0)))

def length (evaluator : Evaluator) (node : Nat) : Run Value := do
  let text ← evaluator.toText (← operand node 0)
  let size := ((← get).store.bytes text).length
  Run.release (.string text)
  return .number (Int64.ofNat size)

def dump (evaluator : Evaluator) (node : Nat) : Run Value := do
  let result ← evaluator.run (← operand node 0)
  let text ← Run.dump result
  Run.onError (Run.release result) (Run.write (text ++ [Byte.newline]))
  return result

/-- What OUTPUT writes for a string: the string and a newline, or the string without the backslash
it ends in. -/
def outputLine (bytes : Bytes) : Bytes :=
  if bytes.getLast? == some Byte.backslash then bytes.dropLast else bytes ++ [Byte.newline]

def output (evaluator : Evaluator) (node : Nat) : Run Value := do
  evaluator.withText (← operand node 0) fun text => do
    Run.write (outputLine ((← get).store.bytes text))
    return .null

/-- Converts two values to numbers, in order. -/
def numbers (evaluator : Evaluator) (node : Nat) (position : Nat) : Run (Int64 × Int64) := do
  let first ← evaluator.toNumber (← operand node position)
  let second ← evaluator.toNumber (← operand node (position + 1))
  return (first, second)

def add (evaluator : Evaluator) (node : Nat) : Run Value := do
  evaluator.withResult (← operand node 0) fun left => do
    match left with
    | .string text =>
      evaluator.withText (← operand node 1) fun other =>
        return .string (← Run.tryOnStore (Store.concat text other))
    | _ =>
      let first ← evaluator.toNumber left
      let second ← evaluator.toNumber (← operand node 1)
      return .number (← Run.ofExcept (Arithmetic.add (← get).checked first second))

def multiply (evaluator : Evaluator) (node : Nat) : Run Value := do
  evaluator.withResult (← operand node 0) fun left => do
    match left with
    | .string text =>
      let count ← evaluator.toNumber (← operand node 1)
      return .string (← Run.tryOnStore (Store.replicate text count))
    | _ =>
      let first ← evaluator.toNumber left
      let second ← evaluator.toNumber (← operand node 1)
      return .number (← Run.ofExcept (Arithmetic.multiply (← get).checked first second))

/-- An operation on the two arguments as numbers, told whether arithmetic is checked. -/
def arithmetic (evaluator : Evaluator) (node : Nat)
    (operation : Bool → Int64 → Int64 → Except Reason Int64) : Run Value := do
  let (first, second) ← evaluator.numbers node 0
  return .number (← Run.ofExcept (operation (← get).checked first second))

def equal (evaluator : Evaluator) (node : Nat) : Run Value := do
  evaluator.withResult (← operand node 0) fun left => do
    evaluator.withResult (← operand node 1) fun right =>
      return .boolean ((← get).store.equal left right)

/-- Whether the comparison of the two arguments has the given outcome. -/
def ordered (evaluator : Evaluator) (node : Nat) (expected : Ordering) : Run Value := do
  return .boolean ((← evaluator.compare (← operand node 0) (← operand node 1)) == expected)

/-- The first argument if its truth value is `decisive`, else the second. -/
def shortCircuit (evaluator : Evaluator) (node : Nat) (decisive : Bool) : Run Value := do
  let left ← evaluator.run (← operand node 0)
  let flag ← Run.onError (Run.release left) (evaluator.toBoolean left)
  if flag == decisive then return left
  else
    Run.release left
    evaluator.run (← operand node 1)

def seq (evaluator : Evaluator) (node : Nat) : Run Value := do
  Run.release (← evaluator.run (← operand node 0))
  evaluator.run (← operand node 1)

/-- The cell that the target of an assignment stands for: that of an identifier, or that of the
name it converts to. -/
def target (evaluator : Evaluator) (value : Value) : Run Nat :=
  match value with
  | .variable cell => return cell
  | _ => do
    let text ← evaluator.toText value
    let name := (← get).store.bytes text
    if name.isIdentifier then
      let cell ← Run.fetch name
      Run.release (.string text)
      return cell
    else
      Run.release (.string text)
      Run.raise (.notAssignable name)

def assign (evaluator : Evaluator) (node : Nat) : Run Value := do
  let cell ← evaluator.target (← operand node 0)
  let result ← evaluator.run (← operand node 1)
  Run.retain result
  Run.assign cell result
  return result

/-- Goes round a loop at most the given number of times. -/
def loop (evaluator : Evaluator) (node : Nat) : Nat → Run Value
  | 0 => throw .exhausted
  | fuel + 1 => do
    if ← evaluator.toBoolean (← operand node 0) then
      Run.release (← evaluator.run (← operand node 1))
      loop evaluator node fuel
    else return .null

def conditional (evaluator : Evaluator) (node : Nat) : Run Value := do
  if ← evaluator.toBoolean (← operand node 0) then evaluator.run (← operand node 1)
  else evaluator.run (← operand node 2)

def substring (evaluator : Evaluator) (node : Nat) : Run Value := do
  evaluator.withText (← operand node 0) fun text => do
    let (start, length) ← evaluator.numbers node 1
    return .string (← Run.tryOnStore (Store.substring text start length))

def splice (evaluator : Evaluator) (node : Nat) : Run Value := do
  evaluator.withText (← operand node 0) fun text => do
    let (start, length) ← evaluator.numbers node 1
    evaluator.withText (← operand node 3) fun replacement =>
      return .string (← Run.tryOnStore (Store.splice text start length replacement))

def negate (evaluator : Evaluator) (node : Nat) : Run Value := do
  let number ← evaluator.toNumber (← operand node 0)
  return .number (← Run.ofExcept (Arithmetic.negate (← get).checked number))

def value (evaluator : Evaluator) (node : Nat) : Run Value := do
  evaluator.withText (← operand node 0) fun text => do
    let name := (← get).store.bytes text
    if name.isIdentifier then Run.read (← Run.fetch name)
    else Run.raise (.notAName name)

def perform (evaluator : Evaluator) (node : Nat) : Builtin → Run Value
  | .prompt => prompt
  | .random => random
  | .eval => evaluator.eval node
  | .block => block node
  | .call => evaluator.call node
  | .shell => evaluator.shell node
  | .quit => evaluator.quit node
  | .not => evaluator.not node
  | .length => evaluator.length node
  | .dump => evaluator.dump node
  | .output => evaluator.output node
  | .add => evaluator.add node
  | .subtract => evaluator.arithmetic node Arithmetic.subtract
  | .multiply => evaluator.multiply node
  | .divide => evaluator.arithmetic node Arithmetic.divide
  | .remainder => evaluator.arithmetic node fun _ => Arithmetic.remainder
  | .power => evaluator.arithmetic node Arithmetic.power
  | .equal => evaluator.equal node
  | .less => evaluator.ordered node .lt
  | .greater => evaluator.ordered node .gt
  | .and => evaluator.shortCircuit node false
  | .or => evaluator.shortCircuit node true
  | .seq => evaluator.seq node
  | .assign => evaluator.assign node
  | .whileLoop => evaluator.loop node evaluator.fuel
  | .conditional => evaluator.conditional node
  | .get => evaluator.substring node
  | .set => evaluator.splice node
  | .negate => evaluator.negate node
  | .value => evaluator.value node

/-- The wrapping sum of the last `count` of `arity` arguments as numbers, added to a total. Each
argument is looked up when its turn comes, since the ones before it may change it. -/
def sum (evaluator : Evaluator) (node arity : Nat) : Nat → Int64 → Run Int64
  | 0, total => return total
  | count + 1, total => do
    let number ← evaluator.toNumber (← operand node (arity - (count + 1)))
    sum evaluator node arity count (total + number)

def performHost (evaluator : Evaluator) (node : Nat) : HostAction → Run Value
  | .dump => do
    let texts ← ((← get).store.args node).mapM Run.dump
    return .string (← Run.onStore (Store.intern (Bytes.joinWith "|" texts)))
  | .sum => do
    let arity := ((← get).store.args node).length
    return .number (← evaluator.sum node arity arity 0)
  | .depth => return .number (Int64.ofNat (← get).depth)
  | .fail => Run.raise (.custom .type "host failure" 0)
  | .plain => throw (.error (.plain "plain failure"))
  | .last => do
    match ((← get).store.args node).getLast? with
    | some argument => evaluator.run argument
    | none => return .null

end KnightLang.Evaluator
