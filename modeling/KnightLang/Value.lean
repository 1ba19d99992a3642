import KnightLang.Bytes

/-!
Values: literals, references to variables, and references to unevaluated applications. Strings and
applications live in a store and are named by their index in it; a variable is named by the index
of its cell.
-/

namespace KnightLang

/-- The variants of a value. -/
inductive Kind where
  | null
  | boolean
  | number
  | string
  | variable
  | expr
  deriving DecidableEq, Repr

namespace Kind

def name : Kind → Bytes
  | .null => "Null"
  | .boolean => "Boolean"
  | .number => "Number"
  | .string => "String"
  | .variable => "Variable"
  | .expr => "Expr"

def all : List Kind := [.null, .boolean, .number, .string, .variable, .expr]

/-- The name of the kind with a given code; codes past the last kind are shown as numbers. -/
def nameOfCode (code : UInt8) : Bytes :=
  match all[code.toNat]? with
  | some kind => kind.name
  | none => "Kind(" ++ Bytes.ofNat code.toNat ++ ")"

end Kind

/-- The strings that every program shares and that are never freed. -/
inductive StaticText where
  | empty
  | yes
  | no
  | null
  | zero
  | one
  deriving DecidableEq, Repr

namespace StaticText

def bytes : StaticText → Bytes
  | .empty => []
  | .yes => "true"
  | .no => "false"
  | .null => "null"
  | .zero => "0"
  | .one => "1"

def all : List StaticText := [.empty, .yes, .no, .null, .zero, .one]

/-- The shared string with the given contents, if there is one. -/
def find? (contents : Bytes) : Option StaticText := all.find? fun text => text.bytes == contents

def ofBool (flag : Bool) : StaticText := if flag then .yes else .no

end StaticText

/-- A reference to a string: a shared one, or an owned one by its index. -/
inductive TextRef where
  | static (text : StaticText)
  | owned (index : Nat)
  deriving DecidableEq, Repr

/-- A value of the language. -/
inductive Value where
  | null
  | boolean (flag : Bool)
  | number (word : Int64)
  | string (text : TextRef)
  | variable (cell : Nat)
  | expr (node : Nat)
  deriving DecidableEq, Repr

namespace Value

instance : Inhabited Value := ⟨.null⟩

def kind : Value → Kind
  | .null => .null
  | .boolean _ => .boolean
  | .number _ => .number
  | .string _ => .string
  | .variable _ => .variable
  | .expr _ => .expr

def isLiteral : Value → Bool
  | .variable _ => false
  | .expr _ => false
  | _ => true

/-- Whether a value has no owned payload. -/
def isPlain : Value → Bool
  | .string (.owned _) => false
  | .expr _ => false
  | _ => true

end Value

end KnightLang
