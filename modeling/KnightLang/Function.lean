import KnightLang.Bytes

/-!
Functions of the language and the table that names them.
-/

namespace KnightLang

/-- The operations that every machine starts with. -/
inductive Builtin where
  | prompt
  | random
  | eval
  | block
  | call
  | shell
  | quit
  | not
  | length
  | dump
  | output
  | add
  | subtract
  | multiply
  | divide
  | remainder
  | power
  | equal
  | less
  | greater
  | and
  | or
  | seq
  | assign
  | whileLoop
  | conditional
  | get
  | set
  | negate
  | value
  deriving DecidableEq, Repr

/-- The operations that a host may define. -/
inductive HostAction where
  | dump
  | sum
  | depth
  | fail
  | plain
  | last
  deriving DecidableEq, Repr

/-- What a function does when it is applied. -/
inductive Action where
  | builtin (operation : Builtin)
  | host (action : HostAction)
  deriving DecidableEq, Repr

/-- A function: the byte that invokes it, its full name, its arity and its action. -/
structure Function where
  name : UInt8
  long : Bytes
  arity : Nat
  action : Action
  deriving DecidableEq, Repr

def maxArity : Nat := 4

/-- The functions known to a machine, the latest definition first. -/
structure FunctionTable where
  entries : List Function := []
  deriving DecidableEq, Repr

namespace FunctionTable

def find? (table : FunctionTable) (name : UInt8) : Option Function :=
  table.entries.find? fun function => function.name == name

/-- Adds a function, in place of any other of its name. -/
def insert (table : FunctionTable) (function : Function) : FunctionTable :=
  { entries := function :: table.entries }

def sorted (table : FunctionTable) : List Function :=
  (List.range 256).filterMap fun code => table.find? code.toUInt8

end FunctionTable

namespace Builtin

def function (name : UInt8) (long : Bytes) (arity : Nat) (operation : Builtin) : Function :=
  { name, long, arity, action := .builtin operation }

def all : List Function := [
  function 80 "PROMPT" 0 .prompt,
  function 82 "RANDOM" 0 .random,
  function 69 "EVAL" 1 .eval,
  function 66 "BLOCK" 1 .block,
  function 67 "CALL" 1 .call,
  function 96 "`" 1 .shell,
  function 81 "QUIT" 1 .quit,
  function 33 "!" 1 .not,
  function 76 "LENGTH" 1 .length,
  function 68 "DUMP" 1 .dump,
  function 79 "OUTPUT" 1 .output,
  function 43 "+" 2 .add,
  function 45 "-" 2 .subtract,
  function 42 "*" 2 .multiply,
  function 47 "/" 2 .divide,
  function 37 "%" 2 .remainder,
  function 94 "^" 2 .power,
  function 63 "?" 2 .equal,
  function 60 "<" 2 .less,
  function 62 ">" 2 .greater,
  function 38 "&" 2 .and,
  function 124 "|" 2 .or,
  function 59 ";" 2 .seq,
  function 61 "=" 2 .assign,
  function 87 "WHILE" 2 .whileLoop,
  function 73 "IF" 3 .conditional,
  function 71 "GET" 3 .get,
  function 83 "SET" 4 .set,
  function 126 "NEGATE" 1 .negate,
  function 86 "VALUE" 1 .value]

end Builtin

/-- The table of a new machine. -/
def FunctionTable.standard : FunctionTable := { entries := Builtin.all }

/-- Whether a byte can begin no application: it begins another token, or only separates tokens. -/
def Byte.isReserved (byte : UInt8) : Bool :=
  isLower byte || isDigit byte || isSeparator byte ||
    [95, 35, 34, 39, 84, 70, 78].contains byte

end KnightLang
