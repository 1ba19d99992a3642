import KnightLang.Proofs.Expression.Exact

/-!
The texts of an expression. Its tokens stand in prefix order, with any layout between them, and a
parse of such a text gives the expression back.
-/

namespace KnightLang

/-! ### Numbers in decimal -/

namespace Decimal

theorem toNat_toUInt8_of_isDigit {character : Char} (hdigit : character.isDigit = true) :
    character.toUInt8.toNat = character.toNat ∧ 48 ≤ character.toNat ∧ character.toNat ≤ 57 := by
  simp only [Char.isDigit, Bool.and_eq_true, decide_eq_true_eq, UInt32.le_iff_toNat_le] at hdigit
  obtain ⟨hlow, hhigh⟩ := hdigit
  have hlow : 48 ≤ character.toNat := hlow
  have hhigh : character.toNat ≤ 57 := hhigh
  refine ⟨?_, hlow, hhigh⟩
  simp only [Char.toUInt8, UInt32.toNat_toUInt8]
  exact Nat.mod_eq_of_lt (Nat.lt_of_le_of_lt hhigh (by decide))

theorem isDigit_of_mem_ofNat {number : Nat} {byte : UInt8} (hmem : byte ∈ Bytes.ofNat number) :
    Byte.isDigit byte = true := by
  obtain ⟨character, hcharacter, rfl⟩ := List.mem_map.mp hmem
  have hdigit := Nat.isDigit_of_mem_toDigits (by decide) (by decide) hcharacter
  obtain ⟨hcode, hlow, hhigh⟩ := toNat_toUInt8_of_isDigit hdigit
  simp only [Byte.isDigit, Bool.and_eq_true, decide_eq_true_eq, UInt8.le_iff_toNat_le, hcode]
  exact ⟨hlow, hhigh⟩

theorem foldl_map_toUInt8 (characters : List Char) (total : Nat)
    (hdigits : ∀ character ∈ characters, character.isDigit = true) :
    (characters.map Char.toUInt8).foldl (fun total byte => 10 * total + digit byte) total =
      Nat.ofDigitChars 10 characters total := by
  induction characters generalizing total with
  | nil => rfl
  | cons character rest ih =>
      have hfirst := toNat_toUInt8_of_isDigit (hdigits character List.mem_cons_self)
      have hdigit : digit character.toUInt8 = character.toNat - 48 := by
        rw [digit, hfirst.1]
      rw [List.map_cons, List.foldl_cons, hdigit]
      exact ih _ fun other hmem => hdigits other (List.mem_cons_of_mem _ hmem)

/-- The decimal text of a number has that number as its value. -/
theorem value_ofNat (number : Nat) : value (Bytes.ofNat number) = number := by
  have hdigits : ∀ character ∈ Nat.toDigits 10 number, character.isDigit = true :=
    fun _ => Nat.isDigit_of_mem_toDigits (by decide) (by decide)
  rw [value, Bytes.ofNat, foldl_map_toUInt8 _ 0 hdigits]
  exact Nat.ofDigitChars_toDigits (by decide) (by decide)

end Decimal

/-! ### Layouts -/

/-- At least one separator or comment. -/
structure Gap (bytes : Bytes) : Prop where
  blank : Blank bytes
  ne_nil : bytes ≠ []

/-- What may follow the name of a function without changing it. -/
def Byte.Decorates (name : UInt8) (decoration : Bytes) : Prop :=
  if Byte.isUpper name then ∀ byte ∈ decoration, Byte.isWordByte byte = true
  else decoration = []

mutual

/-- A text of an expression: its tokens in prefix order, with a gap between any two of them. -/
inductive Tree.Written : Tree → Bytes → Prop where
  | number {word : Int64} {digits : Bytes} :
      digits ≠ [] → (∀ byte ∈ digits, Byte.isDigit byte = true) →
      (Decimal.value digits : Int) = word.toInt → Written (.number word) digits
  | variable {name : Bytes} : name.isIdentifier = true → Written (.variable name) name
  | text {quote : UInt8} {contents : Bytes} :
      quote = 34 ∨ quote = 39 → quote ∉ contents →
      Written (.text contents) (quote :: (contents ++ [quote]))
  | word {letter : UInt8} {decoration : Bytes} {tree : Tree} :
      wordLiteral? letter = some tree → Byte.Decorates letter decoration →
      Written tree (letter :: decoration)
  | apply {function : Function} {decoration text : Bytes} {args : List Tree} :
      Byte.Decorates function.name decoration → Tree.WrittenAll args text →
      Written (.apply function args) (function.name :: decoration ++ text)

/-- The texts of arguments, each behind a gap. -/
inductive Tree.WrittenAll : List Tree → Bytes → Prop where
  | nil : WrittenAll [] []
  | cons {gap first others : Bytes} {tree : Tree} {trees : List Tree} :
      Gap gap → Tree.Written tree first → WrittenAll trees others →
      WrittenAll (tree :: trees) (gap ++ first ++ others)

end

mutual

/-- The expressions that can be written down where the functions of a table are known. -/
def Tree.Writable (table : FunctionTable) : Tree → Prop
  | .null => True
  | .boolean _ => True
  | .number word => 0 ≤ word.toInt
  | .text contents => 34 ∉ contents ∨ 39 ∉ contents
  | .variable name => name.isIdentifier = true
  | .apply function args =>
      table.find? function.name = some function ∧ args.length = function.arity ∧
        Tree.AllWritable table args

def Tree.AllWritable (table : FunctionTable) : List Tree → Prop
  | [] => True
  | tree :: trees => tree.Writable table ∧ Tree.AllWritable table trees

end

mutual

/-- The greatest number of applications that stand inside each other. -/
def Tree.nesting : Tree → Nat
  | .null | .boolean _ | .number _ | .text _ | .variable _ => 0
  | .apply _ args => Tree.nestingAll args + 1

def Tree.nestingAll : List Tree → Nat
  | [] => 0
  | tree :: trees => max tree.nesting (Tree.nestingAll trees)

end

mutual

/-- A text of an expression: its tokens with a space between any two of them. -/
def Tree.print : Tree → Bytes
  | .null => [78]
  | .boolean flag => [if flag then 84 else 70]
  | .number word => Bytes.ofInt64 word
  | .text contents =>
      let quote := if 34 ∈ contents then 39 else 34
      quote :: (contents ++ [quote])
  | .variable name => name
  | .apply function args => function.name :: Tree.printAll args

def Tree.printAll : List Tree → Bytes
  | [] => []
  | tree :: trees => 32 :: (tree.print ++ Tree.printAll trees)

end

/-! ### Every expression that can be written has a text -/

theorem Byte.decorates_nil (name : UInt8) : Byte.Decorates name [] := by
  unfold Byte.Decorates
  split
  · exact List.forall_mem_nil _
  · rfl

theorem Bytes.ofInt64_of_nonneg {word : Int64} (hword : 0 ≤ word.toInt) :
    Bytes.ofInt64 word = Bytes.ofNat word.toInt.toNat := by
  obtain ⟨number, hnumber⟩ := Int.eq_ofNat_of_zero_le hword
  rw [Bytes.ofInt64, hnumber]
  rfl

theorem Tree.written_number {word : Int64} (hword : 0 ≤ word.toInt) :
    (Tree.number word).Written (Bytes.ofInt64 word) := by
  rw [Bytes.ofInt64_of_nonneg hword]
  refine .number ?_ (fun _ => Decimal.isDigit_of_mem_ofNat) ?_
  · rw [Bytes.ofNat, ne_eq, List.map_eq_nil_iff]
    exact Nat.toDigits_ne_nil
  · rw [Decimal.value_ofNat]
    exact Int.toNat_of_nonneg hword

mutual

theorem Tree.written_print {table : FunctionTable} (tree : Tree) (hwritable : tree.Writable table) :
    tree.Written tree.print := by
  match tree with
  | .null => exact .word rfl (Byte.decorates_nil 78)
  | .boolean true => exact .word rfl (Byte.decorates_nil 84)
  | .boolean false => exact .word rfl (Byte.decorates_nil 70)
  | .number word => exact Tree.written_number hwritable
  | .text contents =>
      by_cases hdouble : 34 ∈ contents
      · have hsingle : 39 ∉ contents := hwritable.resolve_left (not_not_intro hdouble)
        simp only [Tree.print, hdouble, ↓reduceIte]
        exact .text (Or.inr rfl) hsingle
      · simp only [Tree.print, hdouble, ↓reduceIte]
        exact .text (Or.inl rfl) hdouble
  | .variable name => exact .variable hwritable
  | .apply function args =>
      have hargs := Tree.writtenAll_printAll args hwritable.2.2
      exact .apply (Byte.decorates_nil function.name) hargs

theorem Tree.writtenAll_printAll {table : FunctionTable} (trees : List Tree)
    (hwritable : Tree.AllWritable table trees) :
    Tree.WrittenAll trees (Tree.printAll trees) := by
  match trees with
  | [] => exact .nil
  | tree :: trees =>
      have hspace : Gap [32] := ⟨.separator rfl .nil, List.cons_ne_nil _ _⟩
      have hfirst := Tree.written_print tree hwritable.1
      have hothers := Tree.writtenAll_printAll trees hwritable.2
      exact .cons hspace hfirst hothers

end

/-! ### A text of an expression is read as that expression -/

/-- Bytes that end any token in front of them, as the end of the bytes does. -/
def Parted (rest : Bytes) : Prop :=
  ∀ byte ∈ rest.head?, Byte.isSeparator byte = true ∨ byte = 35

theorem parted_nil : Parted [] := by
  simp [Parted]

theorem Gap.parted_append {gap : Bytes} (hgap : Gap gap) (rest : Bytes) : Parted (gap ++ rest) := by
  obtain ⟨hblank, hne⟩ := hgap
  cases hblank with
  | nil => exact absurd rfl hne
  | separator hbyte _ => simp [Parted, hbyte]
  | comment _ _ => simp [Parted]

theorem Tree.WrittenAll.parted_append {trees : List Tree} {text rest : Bytes}
    (hwritten : Tree.WrittenAll trees text) (hrest : Parted rest) : Parted (text ++ rest) := by
  cases hwritten with
  | nil => exact hrest
  | cons hgap _ _ =>
      rw [List.append_assoc, List.append_assoc]
      exact hgap.parted_append _

theorem Byte.not_token_of_parts : ∀ byte, Byte.isSeparator byte = true ∨ byte = 35 →
    Byte.isDigit byte = false ∧ Byte.isNameByte byte = false ∧ Byte.isWordByte byte = false :=
  Byte.forall_of_code (by decide +kernel)

namespace Parted

variable {rest : Bytes}

theorem stops_digit (hparted : Parted rest) : Stops Byte.isDigit rest :=
  fun byte hmem => (Byte.not_token_of_parts byte (hparted byte hmem)).1

theorem stops_name (hparted : Parted rest) : Stops Byte.isNameByte rest :=
  fun byte hmem => (Byte.not_token_of_parts byte (hparted byte hmem)).2.1

theorem stops_word (hparted : Parted rest) : Stops Byte.isWordByte rest :=
  fun byte hmem => (Byte.not_token_of_parts byte (hparted byte hmem)).2.2

end Parted

theorem Derives.blank_append {table : FunctionTable} {budget : Nat} {blank word rest : Bytes}
    {tree : Tree} (hblank : Blank blank) (hderives : Derives table budget word tree rest) :
    Derives table budget (blank ++ word) tree rest := by
  cases hderives with
  | atom hfront hatom =>
      rw [← List.append_assoc]
      exact .atom (hblank.append hfront) hatom
  | apply hfront hnames hargs harity =>
      rw [← List.append_assoc]
      exact .apply (hblank.append hfront) hnames hargs harity

theorem Names.of_decorates {table : FunctionTable} {function : Function} {decoration rest : Bytes}
    (hfind : table.find? function.name = some function)
    (hdecorates : Byte.Decorates function.name decoration) (hparted : Parted rest) :
    Names table rest (function.name :: decoration) function := by
  unfold Byte.Decorates at hdecorates
  split at hdecorates
  · next hupper => exact .word hupper hfind hdecorates hparted.stops_word
  · next hupper =>
      subst hdecorates
      exact .symbol (by simpa using hupper) hfind

/-- The token of an expression that is no application. -/
theorem Tree.Written.atom {tree : Tree} {text rest : Bytes} (hwritten : tree.Written text)
    (hparted : Parted rest) (hatomic : ∀ function args, tree ≠ .apply function args) :
    Atom rest text tree := by
  cases hwritten with
  | @number word _ hne hdigits hvalue =>
      have hsmall : Decimal.value text < Decimal.signedBound := by
        have hword := Int64.toInt_lt word
        rw [← hvalue] at hword
        exact_mod_cast hword
      have hword : Int64.ofNat (Decimal.value text) = word := by
        rw [← Int64.ofInt_eq_ofNat, hvalue, Int64.ofInt_toInt]
      rw [← hword]
      exact .number hne hdigits hparted.stops_digit hsmall
  | «variable» hname =>
      cases text with
      | nil => cases hname
      | cons first others =>
          simp only [Bytes.isIdentifier, Bool.and_eq_true, List.all_eq_true] at hname
          exact .variable hname.1 hname.2 hparted.stops_name
  | text hquote hcontents => exact .text hquote hcontents
  | @word letter decoration _ hliteral hdecorates =>
      have hupper := Byte.isUpper_of_wordLiteral? letter (by rw [hliteral]; rfl)
      unfold Byte.Decorates at hdecorates
      rw [if_pos hupper] at hdecorates
      exact .word hliteral hdecorates hparted.stops_word
  | apply _ _ => exact absurd rfl (hatomic _ _)

mutual

theorem Tree.Written.derives {table : FunctionTable} (tree : Tree) {text rest : Bytes}
    {budget : Nat} (hwritten : tree.Written text) (hwritable : tree.Writable table)
    (hnesting : tree.nesting ≤ budget) (hparted : Parted rest) :
    Derives table budget text tree rest := by
  match tree with
  | .null | .boolean _ | .number _ | .text _ | .variable _ =>
      exact .atom .nil (hwritten.atom hparted fun _ _ heq => nomatch heq)
  | .apply function args =>
      cases hwritten with
      | word hliteral _ =>
          exact absurd hliteral (by simp only [wordLiteral?]; split_ifs <;> simp)
      | apply hdecorates hargs =>
          obtain ⟨hfind, harity, hargsWritable⟩ := hwritable
          have hnames := Names.of_decorates hfind hdecorates (hargs.parted_append hparted)
          cases budget with
          | zero => exact absurd hnesting (Nat.not_succ_le_zero _)
          | succ budget =>
              have hinner : Tree.nestingAll args ≤ budget := Nat.le_of_succ_le_succ hnesting
              have hderives := hargs.derives args hargsWritable hinner hparted
              exact .apply .nil hnames hderives harity

theorem Tree.WrittenAll.derives {table : FunctionTable} (trees : List Tree) {text rest : Bytes}
    {budget : Nat} (hwritten : Tree.WrittenAll trees text)
    (hwritable : Tree.AllWritable table trees) (hnesting : Tree.nestingAll trees ≤ budget)
    (hparted : Parted rest) : DerivesAll table budget text trees rest := by
  match trees with
  | [] =>
      cases hwritten
      exact .nil
  | tree :: trees =>
      cases hwritten with
      | cons hgap hfirst hothers =>
          obtain ⟨hfirstWritable, hothersWritable⟩ := hwritable
          rw [Tree.nestingAll, Nat.max_le] at hnesting
          have htree := hfirst.derives tree hfirstWritable hnesting.1
            (hothers.parted_append hparted)
          have htrees := hothers.derives trees hothersWritable hnesting.2 hparted
          exact .cons (htree.blank_append hgap.blank) htrees

end

/-- Whichever text of an expression stands in front of what no token goes on with is parsed as that
expression. -/
theorem Tree.Written.parse {machine : Machine} (hdefined : machine.functions.Defined) {tree : Tree}
    (hwritable : tree.Writable machine.functions)
    (hnesting : (tree.nesting : Int) ≤ machine.maxDepth) {text rest : Bytes} (hwritten : tree.Written text) (hparted : Parted rest) (label : Bytes) :
    ∃ scanner, (machine.grammar label none).parse (text ++ rest) = .ok tree scanner ∧
      scanner.unread = rest := by
  have hbudget : tree.nesting ≤ machine.maxDepth.toNat := by omega
  have hderives := hwritten.derives tree hwritable hbudget hparted
  exact Scan.expression_complete rfl hdefined _ hderives rfl

end KnightLang
