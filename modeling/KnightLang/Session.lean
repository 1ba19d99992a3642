import KnightLang.Evaluation
import KnightLang.Footprint

/-!
Sessions: a host that drives a machine by commands and keeps values in named registers. A command
that fails or breaks a rule leaves the session usable.
-/

namespace KnightLang

/-- A value as the host sees it: an application by its diagnostic text. -/
inductive View where
  | null
  | boolean (flag : Bool)
  | number (word : Int64)
  | string (bytes : Bytes)
  | variable (name : Bytes)
  | expr (text : Bytes)
  deriving DecidableEq, Repr

/-- A variable as the host sees it. -/
structure VariableView where
  name : Bytes
  value : Option View
  deriving DecidableEq, Repr

/-- What the host can ask about a value. -/
structure Info where
  kind : Kind
  isNull : Bool
  isLiteral : Bool
  dump : Bytes
  /-- The length of a string. -/
  length : Option Nat := none
  /-- The references of a string or an application: -1 for a shared string and -2 for a freed
  one. -/
  refs : Option Int := none
  isStatic : Option Bool := none
  deriving DecidableEq, Repr

/-- A value that the host makes. -/
inductive Literal where
  | null
  | boolean (flag : Bool)
  | number (word : Int64)
  | string (bytes : Bytes)
  /-- A string that is always a new one. -/
  | freshString (bytes : Bytes)
  | variable (name : Bytes)
  deriving DecidableEq, Repr

/-- What a host can do. Values are named by registers, and `into` names the register that takes a
result; without one the result is released. -/
inductive Command where
  | evaluate (source : Source) (label : Bytes) (into : Option Bytes)
  | evaluateOrFault (source : Source) (into : Option Bytes)
  | parse (source : Source) (label : Bytes) (into : Option Bytes)
  | openSource (source : Source)
  | parseNext (label : Bytes) (into : Option Bytes)
  | evaluateNext (label : Bytes) (into : Option Bytes)
  | readRest
  | incomplete (bytes : Bytes)
  | make (literal : Literal) (into : Option Bytes)
  | clone (register : Bytes) (into : Option Bytes)
  | release (register : Bytes)
  | info (register : Bytes)
  | expect (register : Bytes) (kind : Kind)
  | run (register : Bytes) (into : Option Bytes)
  | toBoolean (register : Bytes)
  | toNumber (register : Bytes)
  | toText (register : Bytes) (into : Option Bytes)
  | equal (left right : Bytes)
  | compare (left right : Bytes)
  | args (register : Bytes)
  | arg (register : Bytes) (position : Int) (into : Option Bytes)
  | newExpr (name : Option UInt8) (args : List Bytes) (into : Option Bytes)
  | concat (left right : Bytes) (into : Option Bytes)
  | splice (text : Bytes) (start length : Int64) (replacement : Bytes) (into : Option Bytes)
  | replicate (text : Bytes) (count : Int64) (into : Option Bytes)
  | substring (text : Bytes) (start length : Int64) (into : Option Bytes)
  | textOrder (left right : Bytes)
  | fetch (name : Bytes)
  | lookup (name : Bytes)
  | assign (name register : Bytes)
  | read (name : Bytes) (into : Option Bytes)
  | listVariables (stop : Option Bytes)
  | reset
  | footprint
  | define (name : UInt8) (long : Bytes) (arity : Int) (action : HostAction)
  | function (name : Option UInt8)
  | functions
  | extend
  | restart
  | state
  | seed
  | configure (maxDepth : Int) (checked trace : Bool)
  deriving Repr

/-- The answer to a command. -/
inductive Reply where
  | done
  | value (view : View)
  | rest (bytes : Bytes)
  | incomplete (flag : Bool)
  | info (info : Info)
  | boolean (flag : Bool)
  | number (word : Int64)
  | equal (flag : Bool)
  | order (order : Ordering)
  | textOrder (order : Ordering) (equal : Bool)
  | args (function : Function) (args : List View)
  | variable (found : Option VariableView)
  | listing (found : List VariableView) (count : Nat)
  | footprint (footprint : Footprint)
  | function (function : Option Function)
  | functions (functions : List Function)
  | state (checked : Bool) (depth : Nat) (maxDepth : Int) (trace : Bool)
  | seed (seed : Int64)
  deriving Repr

/-- A machine and what its host holds. -/
structure Session where
  machine : Machine
  registers : List (Bytes × Value) := []
  /-- The source of the next programs; without one, it is the machine's own input. -/
  opened : Option Source := none
  /-- How often a loop may go round. -/
  fuel : Nat

abbrev Host := EStateM Stop Session

namespace Session

def onMachine {α : Type} (action : Run α) : Host α := fun session =>
  let machine := session.machine
  let session := { session with machine := {} }
  match action machine with
  | .ok value machine => .ok value { session with machine }
  | .error stop machine => .error stop { session with machine }

def evaluating {α : Type} (action : Evaluator → Run α) : Host α := do
  let fuel := (← get).fuel
  onMachine fun machine => action (Evaluator.within fuel machine) machine

/-- The value in a register; an unused register holds null. -/
def register (name : Bytes) : Host Value := return ((← get).registers.lookup name).getD .null

def raise {α : Type} (reason : Reason) : Host α := throw (.error (.raise reason))

def textRegister (name : Bytes) : Host TextRef := do
  match ← register name with
  | .string text => return text
  | value => raise (.kindMismatch .string value.kind)

def exprRegister (name : Bytes) : Host Nat := do
  match ← register name with
  | .expr node => return node
  | value => raise (.kindMismatch .expr value.kind)

end Session

def Machine.view (machine : Machine) : Value → View
  | .null => .null
  | .boolean flag => .boolean flag
  | .number word => .number word
  | .string text => .string (machine.store.bytes text)
  | .variable cell => .variable (machine.environment.name cell)
  | .expr node => .expr (machine.store.dump machine.environment.name (.expr node))

def Machine.viewCell (machine : Machine) (cell : Cell) : VariableView :=
  { name := cell.name, value := cell.value.map machine.view }

/-- What the host of a machine can ask about a value. -/
def Machine.info (machine : Machine) (value : Value) : Info :=
  let info : Info :=
    { kind := value.kind, isNull := value.kind = .null, isLiteral := value.isLiteral
      dump := machine.store.dump machine.environment.name value }
  match value with
  | .string text =>
    let refs : Int := match machine.store.textRefs? text with
      | none => -1
      | some 0 => -2
      | some refs => refs
    { info with
      length := some (machine.store.bytes text).length
      refs := some refs
      isStatic := some (machine.store.textRefs? text).isNone }
  | .expr node => { info with refs := some (machine.store.nodeRefs node) }
  | _ => info

/-- The variables up to and including the one with a given name. -/
def VariableView.upTo (stop : Option Bytes) : List VariableView → List VariableView
  | [] => []
  | first :: rest => if some first.name = stop then [first] else first :: upTo stop rest

/-- What a machine did since it was last asked: the bytes written, the commands run by a prepared
shell, and the log records, in order. -/
structure Activity where
  output : Bytes
  commands : List Bytes
  records : List LogRecord
  deriving DecidableEq, Repr

namespace Session

def activity (session : Session) : Activity × Session :=
  let world := session.machine.world
  let activity : Activity :=
    { output := world.output
      commands := world.commands.reverse
      records := world.notices.reverse.filterMap fun
        | .log record => some record
        | .text _ => none }
  (activity, { session with
    machine := { session.machine with
      world := { world with chunks := [], commands := [], notices := [] } } })

/-- Answers with a value that the host owns, and keeps it in a register or releases it. -/
def gives (into : Option Bytes) (value : Value) : Host Reply := do
  let view := (← get).machine.view value
  match into with
  | some name =>
    modify fun session =>
      { session with
        registers := (name, value) :: session.registers.filter fun entry => entry.1 != name }
  | none => onMachine (Run.release value)
  return .value view

def make : Literal → Run Value
  | .null => return .null
  | .boolean flag => return .boolean flag
  | .number word => return .number word
  | .string bytes => return .string (← Run.onStore (Store.intern bytes))
  | .freshString bytes => return .string (← Run.onStore (Store.addText bytes))
  | .variable name => return .variable (← Run.fetch name)

/-- Parses one expression from the session's source and leaves the rest unread. -/
def parseNext (label : Bytes) : Host Value := do
  let session ← get
  let shared : Source := match session.machine.world.input with
    | .source source => source
    | _ => { unread := [] }
  let (result, rest) ← onMachine (Run.parseFrom (session.opened.getD shared) label)
  match session.opened with
  | some _ => modify fun session => { session with opened := some rest }
  | none =>
    match session.machine.world.input with
    | .source _ =>
      onMachine (modify fun machine =>
        { machine with world := { machine.world with input := .source rest } })
    | _ => pure ⟨⟩
  match result with
  | .ok value => return value
  | .error error => throw (.error error)

/-- What an action gives, or the error of the language that it ends with. -/
def attempt {α : Type} (action : Host α) : Host (Except Error α) := fun session =>
  match action session with
  | .ok value session => .ok (.ok value) session
  | .error (.error error) session => .ok (.error error) session
  | .error stop session => .error stop session

/-- Parses one expression from the session's source, evaluates it, and leaves the rest unread. -/
def evaluateNext (label : Bytes) : Host Value := do
  match ← attempt (parseNext label) with
  | .ok value =>
    evaluating fun evaluator => Run.deferring (Run.release value) (evaluator.run value)
  | .error error => throw (.error (Evaluator.missingExpression label error))

/-- Takes everything that is left of the session's source. A failure that follows it is all there is
to see, however often it is asked for. -/
def readRest : Host Bytes := do
  let session ← get
  let taken : Source ← match session.opened with
    | some source =>
      modify fun session => { session with opened := some { source with unread := [] } }
      pure source
    | none =>
      match session.machine.world.input with
      | .source source =>
        onMachine (modify fun machine =>
          { machine with world :=
              { machine.world with input := .source { source with unread := [] } } })
        pure source
      | _ => pure { unread := [] }
  match taken.failure with
  | some text => throw (.error (.plain text))
  | none => return taken.unread

def isIncomplete (bytes : Bytes) : Run Bool := do
  match ← Run.parseFrom { unread := bytes } "repl" with
  | (.ok value, _) =>
    Run.release value
    return false
  | (.error error, _) => return error.isIncomplete

def define (name : UInt8) (long : Bytes) (arity : Int) (action : HostAction) : Run Function := do
  if arity < 0 || maxArity < arity then throw (.fault (.arityOutOfRange arity long))
  else if Byte.isReserved name then throw (.fault (.reservedName name))
  else
    let long := if long.isEmpty then Utf8.encode name.toNat else long
    let function : Function := { name, long, arity := arity.toNat, action := .host action }
    modify fun machine => { machine with functions := machine.functions.insert function }
    return function

/-- Adds a reference to each value, in order. -/
def retainAll (values : List Value) : Run PUnit := values.forM Run.retain

/-- An application of a function to values that it takes over. -/
def newExpr (function : Function) (args : List Value) : Run Value := do
  if args.length = function.arity then Run.onStore (Store.addNode function args)
  else throw (.fault (.wrongArgumentCount function.long))

def perform [Addressing] : Command → Host Reply
  | .evaluate source label into => do
    gives into (← evaluating fun evaluator => evaluator.evaluate source label)
  | .evaluateOrFault source into => fun session =>
    match evaluating (fun evaluator => evaluator.evaluate source "MustEvaluateString") session with
    | .ok value session => gives into value session
    | .error (.error error) session => .error (.fault (.unhandled error)) session
    | .error stop session => .error stop session
  | .parse source label into => do gives into (← onMachine (Run.parse source label))
  | .openSource source => do
    modify fun session => { session with opened := some source }
    return .done
  | .parseNext label into => do gives into (← parseNext label)
  | .evaluateNext label into => do gives into (← evaluateNext label)
  | .readRest => return .rest (← readRest)
  | .incomplete bytes => return .incomplete (← onMachine (isIncomplete bytes))
  | .make literal into => do gives into (← onMachine (make literal))
  | .clone name into => do
    let value ← register name
    onMachine (Run.retain value)
    gives into value
  | .release name => do
    onMachine (Run.release (← register name))
    return .done
  | .info name => do
    let value ← register name
    return .info ((← get).machine.info value)
  | .expect name kind => do
    let value ← register name
    if value.kind = kind then return .value ((← get).machine.view value)
    else raise (.kindMismatch kind value.kind)
  | .run name into => do
    let value ← register name
    gives into (← evaluating fun evaluator => evaluator.run value)
  | .toBoolean name => do
    let value ← register name
    return .boolean (← evaluating fun evaluator => evaluator.toBoolean value)
  | .toNumber name => do
    let value ← register name
    return .number (← evaluating fun evaluator => evaluator.toNumber value)
  | .toText name into => do
    let value ← register name
    gives into (.string (← evaluating fun evaluator => evaluator.toText value))
  | .equal left right => do
    let left ← register left
    let right ← register right
    return .equal ((← get).machine.store.equal left right)
  | .compare left right => do
    let left ← register left
    let right ← register right
    return .order (← evaluating fun evaluator => evaluator.compare left right)
  | .args name => do
    let node ← exprRegister name
    let machine := (← get).machine
    match machine.store.node? node with
    | some found => return .args found.function (found.args.map machine.view)
    | none => throw (.fault .outOfRange)
  | .arg name position into => do
    let node ← exprRegister name
    let args := (← get).machine.store.args node
    match if position < 0 then none else args[position.toNat]? with
    | some value =>
      onMachine (Run.retain value)
      gives into value
    | none => throw (.fault .outOfRange)
  | .newExpr name args into => do
    match name.bind (← get).machine.functions.find? with
    | none => return .function none
    | some function =>
      let values ← args.mapM register
      onMachine (retainAll values)
      gives into (← onMachine (newExpr function values))
  | .concat left right into => do
    let left ← textRegister left
    let right ← textRegister right
    gives into (.string (← onMachine (Run.tryOnStore (Store.concat left right))))
  | .splice text start length replacement into => do
    let text ← textRegister text
    let replacement ← textRegister replacement
    gives into
      (.string (← onMachine (Run.tryOnStore (Store.splice text start length replacement))))
  | .replicate text count into => do
    let text ← textRegister text
    gives into (.string (← onMachine (Run.tryOnStore (Store.replicate text count))))
  | .substring text start length into => do
    let text ← textRegister text
    gives into (.string (← onMachine (Run.tryOnStore (Store.substring text start length))))
  | .textOrder left right => do
    let left ← textRegister left
    let right ← textRegister right
    let store := (← get).machine.store
    return .textOrder (Ord.compare (store.bytes left) (store.bytes right))
      (store.equal (.string left) (.string right))
  | .fetch name => do
    let cell ← onMachine (Run.fetch name)
    let machine := (← get).machine
    return .variable (machine.environment.cells[cell]?.map machine.viewCell)
  | .lookup name => do
    let machine := (← get).machine
    let cell := machine.environment.find? name
    return .variable
      (cell.bind fun index => machine.environment.cells[index]?.map machine.viewCell)
  | .assign name source => do
    let cell ← onMachine (Run.fetch name)
    let value ← register source
    onMachine do
      Run.retain value
      Run.assign cell value
    return .done
  | .read name into => do
    gives into (← onMachine do Run.read (← Run.fetch name))
  | .listVariables stop => do
    let machine := (← get).machine
    let found := machine.environment.sorted.map machine.viewCell
    return .listing (VariableView.upTo stop found) machine.environment.size
  | .reset => do
    onMachine Run.reset
    return .done
  | .footprint => return .footprint (← onMachine (modifyGet Machine.footprint))
  | .define name long arity action => do
    return .function (some (← onMachine (define name long arity action)))
  | .function name => return .function (name.bind (← get).machine.functions.find?)
  | .functions => return .functions (← get).machine.functions.sorted
  | .extend => throw (.fault .lateExtension)
  | .restart => return .done
  | .state => do
    let machine := (← get).machine
    return .state machine.checked machine.depth machine.maxDepth machine.trace
  | .seed => return .seed (← get).machine.seed
  | .configure maxDepth checked trace => do
    onMachine (modify fun machine =>
      { machine with
        maxDepth := if maxDepth = 0 then machine.maxDepth else maxDepth, checked, trace })
    return .done

end Session

end KnightLang
