import KnightLang.AddressSet
import KnightLang.Environment
import KnightLang.Parser
import KnightLang.Store.Dump
import KnightLang.Store.Literal
import KnightLang.Store.Strings
import KnightLang.World

/-!
Machines: the complete state of an interpreter, and the actions that parsing, evaluation and the
host are made of. An action ends with a value, with an error of the language, with a fault of the
host, or because a loop ran longer than it was given time for; the machine it leaves behind is
known in every case.
-/

namespace KnightLang

/-- The complete state of an interpreter. -/
structure Machine where
  store : Store := {}
  environment : Environment := {}
  functions : FunctionTable := FunctionTable.standard
  /-- How many applications are running inside each other. -/
  depth : Nat := 0
  /-- The limit on the nesting of applications, both written and running. -/
  maxDepth : Int := 10000
  checked : Bool := false
  trace : Bool := false
  seed : Int64 := 1
  /-- The state of the source of random numbers. -/
  random : UInt64 := 1
  /-- The payloads that the last survey of the machine met. -/
  visited : AddressSet := .unused
  world : World := {}

/-- Why an action ends without a value. -/
inductive Stop where
  | error (error : Error)
  | fault (fault : Fault)
  | exhausted
  deriving DecidableEq, Repr

abbrev Run := EStateM Stop Machine

namespace Run

def raise {α : Type} (reason : Reason) : Run α := throw (.error (.raise reason))

def raiseBecause {α : Type} (reason : Reason) (cause : Bytes) : Run α :=
  throw (.error (.because reason (.plain cause)))

/-- Performs an action on the store. -/
@[inline]
def onStore {α : Type} (action : StoreM α) : Run α := fun machine =>
  let store := machine.store
  let machine := { machine with store := {} }
  match action store with
  | .ok value store => .ok value { machine with store := store }
  | .error fault store => .error (.fault fault) { machine with store := store }

/-- Performs an action on the store that may fail with a reason. -/
@[inline]
def tryOnStore {α : Type} (action : StoreM (Except Reason α)) : Run α := do
  match ← onStore action with
  | .ok value => return value
  | .error reason => raise reason

def ofExcept {α : Type} : Except Reason α → Run α
  | .ok value => return value
  | .error reason => raise reason

def retain [Custody] (value : Value) : Run PUnit := onStore (Custody.retain value)

def release [Custody] (value : Value) : Run PUnit := onStore (Custody.release value)

/-- Performs `cleanup` after an action however it ends. If the clean-up itself stops, that is how
the whole ends. -/
@[inline]
def deferring {α : Type} (cleanup : Run PUnit) (action : Run α) : Run α := fun machine =>
  match action machine with
  | .ok value machine =>
    match cleanup machine with
    | .ok _ machine => .ok value machine
    | .error stop machine => .error stop machine
  | .error stop machine =>
    match cleanup machine with
    | .ok _ machine => .error stop machine
    | .error stop machine => .error stop machine

/-- Performs `cleanup` after an action that ends with a value or an error. -/
@[inline]
def concluding {α : Type} (cleanup : Run PUnit) (action : Run α) : Run α := fun machine =>
  match action machine with
  | .ok value machine =>
    match cleanup machine with
    | .ok _ machine => .ok value machine
    | .error stop machine => .error stop machine
  | .error (.error error) machine =>
    match cleanup machine with
    | .ok _ machine => .error (.error error) machine
    | .error stop machine => .error stop machine
  | .error stop machine => .error stop machine

/-- Performs `cleanup` after an action that ends with an error. -/
@[inline]
def onError {α : Type} (cleanup : Run PUnit) (action : Run α) : Run α := fun machine =>
  match action machine with
  | .error (.error error) machine =>
    match cleanup machine with
    | .ok _ machine => .error (.error error) machine
    | .error stop machine => .error stop machine
  | result => result

/-- The cell that a name stands for, made if there is none. -/
def fetch (name : Bytes) : Run Nat := modifyGet fun machine =>
  let (index, environment) := machine.environment.fetch name
  (index, { machine with environment })

/-- Gives a cell a value it takes over, and releases the one it held. -/
def assign [Custody] (cell : Nat) (value : Value) : Run PUnit := do
  let previous := (← get).environment.value? cell
  modify fun machine => { machine with environment := machine.environment.assign cell value }
  match previous with
  | some previous => release previous
  | none => return

/-- A new reference to the value of a cell. -/
def read [Custody] (cell : Nat) : Run Value := do
  let environment := (← get).environment
  match environment.value? cell with
  | some value =>
    retain value
    return value
  | none => raise (.unassigned (environment.name cell))

/-- Releases the value of a cell and takes the cell out of the table. -/
def unlist [Custody] (cell : Nat) : Run PUnit := do
  match (← get).environment.value? cell with
  | some value => release value
  | none => pure ⟨⟩
  modify fun machine => { machine with environment := machine.environment.unlist cell }

/-- Releases the values of all variables and takes the variables out of the table. -/
def reset [Custody] : Run PUnit := do (← get).environment.indices.forM unlist

def log (record : LogRecord) : Run PUnit :=
  modify fun machine => { machine with world := machine.world.log record }

def flush : Run PUnit := do
  let failure ← modifyGet fun machine =>
    let (failure, world) := machine.world.flush
    (failure, { machine with world })
  match failure with
  | some text => raiseBecause .flushingOutput text
  | none => return

def write (bytes : Bytes) : Run PUnit := do
  let failure ← modifyGet fun machine =>
    let (failure, world) := machine.world.write bytes
    (failure, { machine with world })
  match failure with
  | some text => raiseBecause .writingOutput text
  | none => flush

def dump (value : Value) : Run Bytes := do
  let machine ← get
  return machine.store.dump machine.environment.name value

/-- Draws a random number below 2^31. The generator is a stand-in: which numbers come for a seed is
up to the library of the host, and nothing but the range of the numbers is promised. -/
def drawRandom : Run Int64 := modifyGet fun machine =>
  let next : UInt64 := machine.random * 6364136223846793005 + 1442695040888963407
  (Int64.ofNat (next >>> 33).toNat, { machine with random := next })

end Run

def Machine.grammar (machine : Machine) (label : Bytes) (failure : Option Bytes) : Grammar :=
  { label, functions := machine.functions, limit := machine.maxDepth, failure }

mutual

/-- Puts an expression into the store and gives a reference to it. -/
def Tree.load : Tree → Run Value
  | .null => return .null
  | .boolean flag => return .boolean flag
  | .number word => return .number word
  | .text contents => return .string (← Run.onStore (Store.intern contents))
  | .variable name => return .variable (← Run.fetch name)
  | .apply function args => do Run.onStore (Store.addNode function (← Tree.loadAll args))

/-- Puts expressions into the store, in order. -/
def Tree.loadAll : List Tree → Run (List Value)
  | [] => return []
  | tree :: rest => do
    let value ← Tree.load tree
    return value :: (← Tree.loadAll rest)

end

namespace Run

/-- Parses one expression from a source and gives a reference to it and the rest of the source.
Every variable met gets its cell, even if the parse fails later on. -/
def parseFrom (source : Source) (label : Bytes) : Run (Except Error Value × Source) := do
  match ((← get).grammar label source.failure).parse source.unread with
  | .ok tree scanner =>
    return (.ok (← tree.load), { source with unread := scanner.unread })
  | .error error scanner =>
    scanner.names.reverse.forM fun name => do let _ ← fetch name
    return (.error error, { source with unread := scanner.unread })

/-- Parses one expression and ignores what follows it. -/
def parse (source : Source) (label : Bytes) : Run Value := do
  match ← parseFrom source label with
  | (.ok value, _) => return value
  | (.error error, _) => throw (.error error)

end Run

end KnightLang
