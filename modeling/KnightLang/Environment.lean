import KnightLang.Value

/-!
Variables. A cell is made the first time its name is met and keeps its index for good; resetting
the environment empties the cells and takes them out of the table, so that a later use of a name
makes a new cell.
-/

namespace KnightLang

/-- The storage of one variable. -/
structure Cell where
  name : Bytes
  value : Option Value := none
  listed : Bool := true
  deriving DecidableEq, Repr

/-- All cells ever made, in order of creation. -/
structure Environment where
  cells : Array Cell := #[]
  deriving DecidableEq, Repr

namespace Environment

def find? (environment : Environment) (name : Bytes) : Option Nat :=
  environment.cells.findIdx? fun cell => cell.listed && cell.name == name

/-- The cell that a name stands for, made unassigned if there is none. -/
def fetch (environment : Environment) (name : Bytes) : Nat × Environment :=
  match environment.find? name with
  | some index => (index, environment)
  | none => (environment.cells.size, { cells := environment.cells.push { name } })

def name (environment : Environment) (index : Nat) : Bytes :=
  (environment.cells[index]?.map Cell.name).getD []

/-- The value of a cell, if it is assigned. -/
def value? (environment : Environment) (index : Nat) : Option Value :=
  environment.cells[index]?.bind Cell.value

def assign (environment : Environment) (index : Nat) (value : Value) : Environment :=
  { cells := environment.cells.modify index fun cell => { cell with value := some value } }

def unlist (environment : Environment) (index : Nat) : Environment :=
  { cells := environment.cells.modify index fun cell =>
      { cell with value := none, listed := false } }

/-- The indices of the cells in the table, in order of creation. -/
def indices (environment : Environment) : List Nat :=
  (List.range environment.cells.size).filter fun index =>
    (environment.cells[index]?.map Cell.listed).getD false

def size (environment : Environment) : Nat := environment.indices.length

/-- The cells in the table, in the byte order of their names. -/
def sorted (environment : Environment) : List Cell :=
  (environment.cells.toList.filter Cell.listed).mergeSort fun first second =>
    (compare first.name second.name).isLE

end Environment

end KnightLang
