import KnightLang.Session

/-!
The written form of expressions, as rules that say nothing about how they are read. Every token is
as long as it can be: what follows it must not begin with a byte that would continue it.
-/

namespace KnightLang

/-- Bytes between tokens: separators, and comments up to a newline. -/
inductive Blank : Bytes → Prop where
  | nil : Blank []
  | separator {byte : UInt8} {rest : Bytes} :
      Byte.isSeparator byte = true → Blank rest → Blank (byte :: rest)
  | comment {text rest : Bytes} :
      Byte.newline ∉ text → Blank rest → Blank (35 :: (text ++ Byte.newline :: rest))

/-- Bytes that hold no token: they are blank, or end in a comment that no newline ends. -/
inductive Void : Bytes → Prop where
  | blank {bytes : Bytes} : Blank bytes → Void bytes
  | comment {blank text : Bytes} :
      Blank blank → Byte.newline ∉ text → Void (blank ++ 35 :: text)

/-- No byte that passes a test comes first. -/
def Stops (test : UInt8 → Bool) (rest : Bytes) : Prop := ∀ byte ∈ rest.head?, test byte = false

/-- The literals that are words, by their first letter. -/
def wordLiteral? (letter : UInt8) : Option Tree :=
  if letter = 84 then some (.boolean true)
  else if letter = 70 then some (.boolean false)
  else if letter = 78 then some .null
  else none

/-- The tokens that are expressions by themselves, in front of `rest`. -/
inductive Atom (rest : Bytes) : Bytes → Tree → Prop where
  | number {digits : Bytes} :
      digits ≠ [] → (∀ byte ∈ digits, Byte.isDigit byte = true) → Stops Byte.isDigit rest →
      Decimal.value digits < Decimal.signedBound →
      Atom rest digits (.number (Int64.ofNat (Decimal.value digits)))
  | variable {first : UInt8} {others : Bytes} :
      Byte.isNameStart first = true → (∀ byte ∈ others, Byte.isNameByte byte = true) →
      Stops Byte.isNameByte rest → Atom rest (first :: others) (.variable (first :: others))
  | text {quote : UInt8} {contents : Bytes} :
      quote = 34 ∨ quote = 39 → quote ∉ contents →
      Atom rest (quote :: (contents ++ [quote])) (.text contents)
  | word {letter : UInt8} {others : Bytes} {tree : Tree} :
      wordLiteral? letter = some tree → (∀ byte ∈ others, Byte.isWordByte byte = true) →
      Stops Byte.isWordByte rest → Atom rest (letter :: others) tree

/-- The tokens that name the function of an application, in front of `rest`. -/
inductive Names (table : FunctionTable) (rest : Bytes) : Bytes → Function → Prop where
  | word {letter : UInt8} {others : Bytes} {function : Function} :
      Byte.isUpper letter = true → table.find? letter = some function →
      (∀ byte ∈ others, Byte.isWordByte byte = true) → Stops Byte.isWordByte rest →
      Names table rest (letter :: others) function
  | symbol {byte : UInt8} {function : Function} :
      Byte.isUpper byte = false → table.find? byte = some function →
      Names table rest [byte] function

mutual

/-- Bytes in front of `rest` are an expression with at most `budget` applications inside each
other. -/
inductive Derives (table : FunctionTable) :
    (budget : Nat) → Bytes → Tree → (rest : Bytes) → Prop where
  | atom {budget : Nat} {blank token : Bytes} {tree : Tree} {rest : Bytes} :
      Blank blank → Atom rest token tree → Derives table budget (blank ++ token) tree rest
  | apply {budget : Nat} {blank head args : Bytes} {function : Function} {trees : List Tree}
      {rest : Bytes} :
      Blank blank → Names table (args ++ rest) head function →
      DerivesAll table budget args trees rest → trees.length = function.arity →
      Derives table (budget + 1) (blank ++ (head ++ args)) (.apply function trees) rest

inductive DerivesAll (table : FunctionTable) :
    (budget : Nat) → Bytes → List Tree → (rest : Bytes) → Prop where
  | nil {budget : Nat} {rest : Bytes} : DerivesAll table budget [] [] rest
  | cons {budget : Nat} {first others : Bytes} {tree : Tree} {trees : List Tree} {rest : Bytes} :
      Derives table budget first tree (others ++ rest) →
      DerivesAll table budget others trees rest →
      DerivesAll table budget (first ++ others) (tree :: trees) rest

end

/-- The tables that a host can build up. -/
inductive FunctionTable.Defined : FunctionTable → Prop where
  | standard : Defined standard
  | define {machine after : Machine} {function : Function} (name : UInt8) (long : Bytes)
      (arity : Int) (action : HostAction) :
      Defined machine.functions →
      Session.define name long arity action machine = .ok function after →
      Defined after.functions

theorem FunctionTable.find?_insert (table : FunctionTable) (function : Function) (byte : UInt8) :
    (table.insert function).find? byte =
      if function.name = byte then some function else table.find? byte := by
  by_cases hname : function.name = byte
  · simp [find?, insert, hname]
  · simp [find?, insert, hname]

theorem Session.functions_of_define {name : UInt8} {long : Bytes} {arity : Int}
    {action : HostAction} {machine after : Machine} {function : Function}
    (hdefine : Session.define name long arity action machine = .ok function after) :
    after.functions = machine.functions.insert function ∧
      Byte.isReserved function.name = false := by
  unfold Session.define at hdefine
  split at hdefine
  · cases hdefine
  · split at hdefine
    · cases hdefine
    · next hreserved =>
        cases hdefine
        exact ⟨rfl, by simpa using hreserved⟩

/-- Only a byte that begins no other token names a function. -/
theorem FunctionTable.Defined.isReserved_eq_false {table : FunctionTable}
    (hdefined : table.Defined) {byte : UInt8} {function : Function}
    (hfind : table.find? byte = some function) : Byte.isReserved byte = false := by
  induction hdefined with
  | standard =>
      have hfree : ∀ function ∈ Builtin.all, Byte.isReserved function.name = false := by decide
      have hname : function.name = byte := by simpa using List.find?_some hfind
      rw [← hname]
      exact hfree function (List.mem_of_find?_eq_some hfind)
  | define name long arity action _ hdefine ih =>
      obtain ⟨htable, hreserved⟩ := Session.functions_of_define hdefine
      rw [htable, find?_insert] at hfind
      split at hfind
      · next hname => exact hname ▸ hreserved
      · exact ih hfind

end KnightLang
