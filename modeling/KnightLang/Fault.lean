import KnightLang.Error

/-!
Misuse by the host: operations that break the rules of ownership or definition, and stop at once.
-/

namespace KnightLang

/-- A broken rule of the host's side. -/
inductive Fault where
  | cloneFreedString
  | releaseFreedString
  | cloneFreedExpr
  | releaseFreedExpr
  | wrongArgumentCount (function : Bytes)
  | arityOutOfRange (arity : Int) (function : Bytes)
  | reservedName (name : UInt8)
  | lateExtension
  | outOfRange
  | unhandled (error : Error)
  deriving DecidableEq, Repr

namespace Fault

def message : Fault → Bytes
  | .cloneFreedString => "knight: clone of freed string"
  | .releaseFreedString => "knight: release of freed string"
  | .cloneFreedExpr => "knight: clone of freed expression"
  | .releaseFreedExpr => "knight: release of freed expression"
  | .wrongArgumentCount function => "knight: wrong number of arguments to " ++ function
  | .arityOutOfRange arity function =>
    "knight: arity " ++ Bytes.ofInt arity ++ " of " ++ function ++ " out of range"
  | .reservedName name => "knight: " ++ Quoted.byte name ++ " cannot name a function"
  | .lateExtension => "knight/internal: Register must be called before any VM is created"
  | .outOfRange => "runtime error"
  | .unhandled error => error.text

end Fault

end KnightLang
