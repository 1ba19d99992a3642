import KnightLang.Fault
import KnightLang.Function

/-!
The store of strings and applications. Every owned payload carries the number of its references and
is freed when the last one is released: a freed string is empty, and a freed application has
released its arguments and holds nulls. An application only refers to payloads that are older than
itself, so its arguments have smaller indices.
-/

namespace KnightLang

/-- An owned string with its number of references, which is zero once it is freed. -/
structure Text where
  bytes : Bytes
  refs : Nat
  deriving DecidableEq, Repr

/-- An application with its number of references, which is zero once it is freed. -/
structure Node where
  function : Function
  args : List Value
  refs : Nat
  deriving DecidableEq, Repr

/-- All payloads ever made, freed ones included, in order of creation. -/
structure Store where
  texts : Array Text := #[]
  nodes : Array Node := #[]
  deriving DecidableEq, Repr

/-- An action on the store that may break a rule of ownership. -/
abbrev StoreM := EStateM Fault Store

namespace Store

def text? (store : Store) (index : Nat) : Option Text := store.texts[index]?

def node? (store : Store) (index : Nat) : Option Node := store.nodes[index]?

/-- The contents of a string; a freed string has none. -/
def bytes (store : Store) : TextRef → Bytes
  | .static text => text.bytes
  | .owned index => ((store.text? index).map Text.bytes).getD []

/-- The argument of an application at a position; a missing one reads as null. -/
def arg (store : Store) (node : Nat) (position : Nat) : Value :=
  match store.node? node with
  | some node => node.args.getD position .null
  | none => .null

def args (store : Store) (node : Nat) : List Value := ((store.node? node).map Node.args).getD []

/-- Adds an owned string with one reference. -/
def addText (contents : Bytes) : StoreM TextRef := do
  let store ← get
  let index := store.texts.size
  set { store with texts := store.texts.push { bytes := contents, refs := 1 } }
  return .owned index

/-- Adds an application with one reference, which takes over its arguments. -/
def addNode (function : Function) (args : List Value) : StoreM Value := do
  let store ← get
  let index := store.nodes.size
  set { store with nodes := store.nodes.push { function, args, refs := 1 } }
  return .expr index

/-- A string with the given contents: a shared one if there is one, else a new owned one. -/
def intern (contents : Bytes) : StoreM TextRef :=
  match StaticText.find? contents with
  | some text => return .static text
  | none => addText contents

def setTextRefs (store : Store) (index : Nat) (refs : Nat) : Store :=
  { store with texts := store.texts.modify index fun text => { text with refs := refs } }

def freeText (store : Store) (index : Nat) : Store :=
  { store with texts := store.texts.modify index fun _ => { bytes := [], refs := 0 } }

def setNodeRefs (store : Store) (index : Nat) (refs : Nat) : Store :=
  { store with nodes := store.nodes.modify index fun node => { node with refs := refs } }

/-- Replaces an argument of an application by null. -/
def clearArg (store : Store) (index : Nat) (position : Nat) : Store :=
  { store with
    nodes := store.nodes.modify index fun node =>
      { node with args := node.args.set position .null } }

def retainText : TextRef → StoreM PUnit
  | .static _ => return
  | .owned index => do
    match (← get).text? index with
    | some { refs := refs + 1, .. } => modify fun store => store.setTextRefs index (refs + 2)
    | _ => throw .cloneFreedString

/-- Removes a reference to a string, freeing it with the last one. -/
def releaseText : TextRef → StoreM PUnit
  | .static _ => return
  | .owned index => do
    match (← get).text? index with
    | some { refs := 1, .. } => modify fun store => store.freeText index
    | some { refs := refs + 2, .. } => modify fun store => store.setTextRefs index (refs + 1)
    | _ => throw .releaseFreedString

/-- Adds a reference to the payload of a value, if it has one. -/
def retain : Value → StoreM PUnit
  | .string text => retainText text
  | .expr index => do
    match (← get).node? index with
    | some { refs := refs + 1, .. } => modify fun store => store.setNodeRefs index (refs + 2)
    | _ => throw .cloneFreedExpr
  | _ => return

/-- Performs `release` on the arguments of an application from a position on, in order, clearing
each one afterwards. -/
def releaseArgs (release : Value → StoreM PUnit) (index : Nat) : Nat → List Value → StoreM PUnit
  | _, [] => return
  | position, value :: rest => do
    release value
    modify fun store => store.clearArg index position
    releaseArgs release index (position + 1) rest

/-- Removes a reference to the payload of a value whose applications nest at most `bound` deep. -/
def releaseWithin : Nat → Value → StoreM PUnit
  | _, .string text => releaseText text
  | 0, .expr _ => return
  | bound + 1, .expr index => do
    match (← get).node? index with
    | some { refs := 1, args, .. } =>
      modify fun store => store.setNodeRefs index 0
      releaseArgs (releaseWithin bound) index 0 args
    | some { refs := refs + 2, .. } => modify fun store => store.setNodeRefs index (refs + 1)
    | _ => throw .releaseFreedExpr
  | _, _ => return

/-- Removes a reference to the payload of a value, if it has one. The last reference to an
application releases its arguments. -/
def release (value : Value) : StoreM PUnit := do
  releaseWithin (← get).nodes.size value

/-- The number of references to a string: none for a shared one. -/
def textRefs? (store : Store) : TextRef → Option Nat
  | .static _ => none
  | .owned index => some (((store.text? index).map Text.refs).getD 0)

def nodeRefs (store : Store) (index : Nat) : Nat := ((store.node? index).map Node.refs).getD 0

/-- Whether two values are equal: of one kind, strings by contents, numbers and truth values by
value, variables and applications by identity. -/
def equal (store : Store) (left right : Value) : Bool :=
  match left, right with
  | .string first, .string second => first == second || store.bytes first == store.bytes second
  | _, _ => left == right

def literalBoolean (store : Store) : Value → Bool
  | .boolean flag => flag
  | .number word => word != 0
  | .string text => !(store.bytes text).isEmpty
  | _ => false

end Store

/-- How references are kept: what adding a reference to the payload of a value and removing one do
to the store. -/
class Custody where
  retain : Value → StoreM PUnit
  release : Value → StoreM PUnit

/-- References are counted, and a payload is freed with its last one. -/
@[reducible]
def Custody.counting : Custody := { retain := Store.retain, release := Store.release }

end KnightLang
