import KnightLang.Function

/-!
Expressions as written: literals, variables by name, and applications.
-/

namespace KnightLang

/-- An expression as written. -/
inductive Tree where
  | null
  | boolean (flag : Bool)
  | number (word : Int64)
  | text (contents : Bytes)
  | variable (name : Bytes)
  | apply (function : Function) (args : List Tree)
  deriving Repr

instance : Inhabited Tree := ⟨.null⟩

end KnightLang
