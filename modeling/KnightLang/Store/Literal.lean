import KnightLang.Decimal
import KnightLang.Store

/-!
Conversions of literals. A number converts to its decimal text and a text to the number at its
front; null is false, zero and `null`.
-/

namespace KnightLang.Store

def literalNumber (store : Store) : Value → Int64
  | .boolean flag => if flag then 1 else 0
  | .number word => word
  | .string text => Decimal.leadingNumber (store.bytes text)
  | _ => 0

/-- A string for the decimal text of a word: shared for zero and one, else new. -/
def numberText (word : Int64) : StoreM TextRef :=
  if word == 0 then return .static .zero
  else if word == 1 then return .static .one
  else addText (Bytes.ofInt64 word)

/-- The string of a literal, with a reference for the caller. -/
def literalText [Custody] : Value → StoreM TextRef
  | .boolean flag => return .static (StaticText.ofBool flag)
  | .number word => numberText word
  | .string text => do
    Custody.retain (.string text)
    return text
  | _ => return .static .null

end KnightLang.Store
