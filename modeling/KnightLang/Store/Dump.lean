import KnightLang.Store

/-!
The diagnostic text of a value, which names each constructor and writes strings as they are.
-/

namespace KnightLang.Store

/-- Puts the texts of the arguments of an application in front of `tail`, each after a comma. -/
def dumpArgs (dump : Value → Bytes → Bytes) : List Value → Bytes → Bytes
  | [], tail => tail
  | value :: rest, tail => ", " ++ dump value (dumpArgs dump rest tail)

/-- Puts the text of a value whose applications nest at most `bound` deep in front of `tail`. -/
def dumpWithin (store : Store) (name : Nat → Bytes) : Nat → Value → Bytes → Bytes
  | _, .null, tail => "Null()" ++ tail
  | _, .boolean flag, tail => "Boolean(" ++ Bytes.ofBool flag ++ ")" ++ tail
  | _, .number word, tail => "Number(" ++ Bytes.ofInt64 word ++ ")" ++ tail
  | _, .string text, tail => "String(" ++ store.bytes text ++ (41 :: tail)
  | _, .variable cell, tail => "Identifier(" ++ name cell ++ ")" ++ tail
  | 0, .expr _, tail => tail
  | bound + 1, .expr index, tail =>
    match store.node? index with
    | some node =>
      "Function(" ++ node.function.name ::
        dumpArgs (dumpWithin store name bound) node.args (41 :: tail)
    | none => tail

/-- The text of a value, given the names of the cells. -/
def dump (store : Store) (name : Nat → Bytes) (value : Value) : Bytes :=
  store.dumpWithin name store.nodes.size value []

end KnightLang.Store
