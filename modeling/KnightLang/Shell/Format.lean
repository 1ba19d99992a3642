import KnightLang.Shell.Floating

/-!
The texts that the commands `echo` and `printf` write.
-/

namespace KnightLang.Shell

/-- A text with its escapes resolved; it is cut if an escape ends the output. -/
structure Resolved where
  text : Bytes
  isCut : Bool := false
  deriving DecidableEq, Repr

def Resolved.after (resolved : Resolved) (byte : UInt8) : Resolved :=
  { resolved with text := byte :: resolved.text }

def escaped? (letter : UInt8) : Option UInt8 :=
  match letter with
  | 92 => some 92
  | 97 => some 7
  | 98 => some 8
  | 101 => some 27
  | 102 => some 12
  | 110 => some 10
  | 114 => some 13
  | 116 => some 9
  | 118 => some 11
  | _ => none

def isOctal (byte : UInt8) : Bool := 48 ≤ byte && byte ≤ 55

/-- The byte that octal digits stand for, and how many there are, up to three. -/
def octal (text : Bytes) : UInt8 × Nat :=
  let digits := (text.take 3).takeWhile isOctal
  (UInt8.ofNat (Numeral.valueIn 8 digits), digits.length)

/-- The byte that an escape stands for, given what follows its backslash, and its length. In words,
a further zero may stand in front of octal digits. -/
def escape? (inWord : Bool) : Bytes → Option (UInt8 × Nat)
  | [] => none
  | letter :: rest =>
    if inWord && letter == 48 then
      let (byte, length) := octal rest
      some (byte, length + 1)
    else if isOctal letter then some (octal (letter :: rest))
    else (escaped? letter).map fun byte => (byte, 1)

/-- Resolves the escapes of a word. The first `skip` bytes belong to an escape that is already
resolved. -/
def resolve : Nat → Bytes → Resolved
  | _, [] => { text := [] }
  | skip + 1, _ :: rest => resolve skip rest
  | 0, byte :: rest =>
    if byte == Byte.backslash then
      if rest.head? == some 99 then { text := [], isCut := true }
      else
        match escape? true rest with
        | some (value, length) => (resolve length rest).after value
        | none => (resolve 0 rest).after byte
    else (resolve 0 rest).after byte

def spaced (words : List Bytes) : Bytes := Bytes.joinWith [32] words

/-- What `echo` writes: its words with escapes resolved, and a line end unless the first word is
`-n` or an escape ends the output. -/
def echo (words : List Bytes) : Bytes :=
  let (endsLine, words) := match words with
    | first :: rest => if first == Bytes.ofString "-n" then (false, rest) else (true, words)
    | [] => (true, [])
  let resolved := resolve 0 (spaced words)
  if resolved.isCut || !endsLine then resolved.text else resolved.text ++ [Byte.newline]

/-- What `echo` writes where its first words may be options: `n` for no line end, `e` to resolve
escapes, `E` to keep them. -/
def optionEcho (words : List Bytes) : Bytes :=
  let isOption := fun (word : Bytes) => match word with
    | 45 :: letters => !letters.isEmpty && letters.all ([110, 101, 69].contains ·)
    | _ => false
  let options := (words.takeWhile isOption).flatMap List.tail
  let text := spaced (words.dropWhile isOption)
  let resolved :=
    if options.reverse.find? (· != 110) == some 101 then resolve 0 text else { text }
  if resolved.isCut || options.contains 110 then resolved.text
  else resolved.text ++ [Byte.newline]

/-- How a conversion fits its text: the flags, the least width and the precision. -/
structure Fitting where
  alternate : Bool := false
  leftAligned : Bool := false
  zeroFilled : Bool := false
  plusSign : Bool := false
  spaceSign : Bool := false
  width : Nat := 0
  precision : Option Nat := none
  deriving DecidableEq, Repr

namespace Fitting

def pad (fitting : Fitting) (text : Bytes) : Bytes :=
  let missing := List.replicate (fitting.width - text.length) 32
  if fitting.leftAligned then text ++ missing else missing ++ text

/-- A text cut to the precision, at its least width. -/
def cut (fitting : Fitting) (text : Bytes) : Bytes :=
  fitting.pad (match fitting.precision with
    | some limit => text.take limit
    | none => text)

/-- The sign of a number that can be negative. -/
def sign (fitting : Fitting) (isNegative : Bool) : Bytes :=
  if isNegative then [45]
  else if fitting.plusSign then [43]
  else if fitting.spaceSign then [32]
  else []

/-- A number with what stands in front of its digits, at its least width. -/
def number (fitting : Fitting) (fillsZeros : Bool) (front digits : Bytes) : Bytes :=
  if fitting.zeroFilled && !fitting.leftAligned && fillsZeros then
    front ++ List.replicate (fitting.width - front.length - digits.length) 48 ++ digits
  else fitting.pad (front ++ digits)

/-- An integer with what stands in front of its digits. The precision is the least number of
digits; without digits, zero is empty. -/
def integer (fitting : Fitting) (front digits : Bytes) : Bytes :=
  let digits := match fitting.precision with
    | some least =>
      if least = 0 && digits == ([48] : Bytes) then []
      else List.replicate (least - digits.length) 48 ++ digits
    | none => digits
  fitting.number fitting.precision.isNone front digits

/-- A floating-point number, as a letter asks for it. -/
def floating (fitting : Fitting) (letter : UInt8) (value : Floating) : Bytes :=
  let named := fun (isNegative : Bool) (name : Bytes) =>
    fitting.number false (fitting.sign isNegative) name
  let text := match value with
    | .infinite isNegative => named isNegative "inf"
    | .notNumber isNegative => named isNegative "nan"
    | .finite isNegative mantissa exponent =>
      let digits := Floating.written (Byte.toLower letter) fitting.alternate fitting.precision
        mantissa exponent
      let sign := fitting.sign isNegative
      if Byte.toLower letter == 97 then fitting.number true (sign ++ digits.take 2) (digits.drop 2)
      else fitting.number true sign digits
  if Byte.isUpper letter then
    text.map fun byte => if Byte.isLower byte then byte - 32 else byte
  else text

end Fitting

/-- What `printf` has left to do and has done so far. -/
structure Printing where
  words : List Bytes
  /-- What was written, the latest first. -/
  output : List Bytes := []
  /-- Complaints, the latest first. -/
  complaints : List Bytes := []
  status : Nat := 0
  /-- Whether no more is written. -/
  isOver : Bool := false
  deriving DecidableEq, Repr

namespace Printing

def write (printing : Printing) (bytes : Bytes) : Printing :=
  { printing with output := bytes :: printing.output }

def complain (printing : Printing) (text : Bytes) : Printing :=
  { printing with complaints := text :: printing.complaints, status := 1 }

def abort (printing : Printing) (text : Bytes) : Printing :=
  { printing with complaints := text :: printing.complaints, status := 2, isOver := true }

/-- Takes the next word, if there is one. -/
def next (printing : Printing) : Option Bytes × Printing :=
  (printing.words.head?, { printing with words := printing.words.tail })

/-- Complains about a word that is not a number to its end, or about one out of range. -/
def checkNumber (printing : Printing) (word rest : Bytes) (isOutside : Bool) : Printing :=
  if !rest.isEmpty then
    if rest.length == word.length then printing.complain (word ++ ": expected numeric value")
    else printing.complain (word ++ ": not completely converted")
  else if isOutside then printing.complain (word ++ ": Numerical result out of range")
  else printing

/-- Takes a word as a number: after a quote, the value of a byte. -/
def nextNumber {α : Type} (printing : Printing) (ofNat : Nat → α)
    (leading : Bytes → Option (α × Bool × Bytes)) : α × Printing :=
  match printing.next with
  | (none, printing) => (ofNat 0, printing)
  | (some word, printing) =>
    match word with
    | 39 :: rest | 34 :: rest => (ofNat (rest.headD 0).toNat, printing)
    | _ =>
      match leading word with
      | some (value, isOutside, rest) => (value, printing.checkNumber word rest isOutside)
      | none => (ofNat 0, printing.checkNumber word word false)

/-- Takes a word as a signed integer of 64 bits. -/
def nextSigned (printing : Printing) : Int × Printing :=
  printing.nextNumber Int.ofNat fun word =>
    (Numeral.leadingInteger? word).map fun (value, rest) =>
      let clamped := Numeral.clamp Numeral.least Numeral.most value
      (clamped, clamped != value, rest)

/-- Takes a word as an unsigned integer of 64 bits; a negative one wraps around. -/
def nextUnsigned (printing : Printing) : Nat × Printing :=
  printing.nextNumber id fun word =>
    (Numeral.leadingInteger? word).map fun (value, rest) =>
      if Decimal.unsignedBound ≤ value.natAbs then (Decimal.unsignedBound - 1, true, rest)
      else ((value % Decimal.unsignedBound).toNat, false, rest)

def nextFloating (printing : Printing) : Floating × Printing :=
  printing.nextNumber (fun value => (Floating.nearest false value 1).1) Floating.leading?

/-- Writes an unsigned integer in a base, with a text in front of it if the flags ask for that. -/
def writeUnsigned (printing : Printing) (fitting : Fitting) (base : Nat) (front : Bytes)
    (raise : Bool) : Printing :=
  let (value, printing) := printing.nextUnsigned
  let digits : Bytes := (Nat.toDigits base value).map Char.toUInt8
  let digits := if raise then digits.map fun byte => if Byte.isLower byte then byte - 32 else byte
    else digits
  if fitting.alternate && base == 8 && fitting.precision.getD 0 ≤ digits.length then
    let digits := if value = 0 then digits else 48 :: digits
    printing.write (fitting.number fitting.precision.isNone [] digits)
  else if fitting.alternate && value != 0 then printing.write (fitting.integer front digits)
  else printing.write (fitting.integer [] digits)

/-- Writes a word as a conversion asks for it. A complaint about the conversion repeats it. -/
def convert (printing : Printing) (fitting : Fitting) (letter : UInt8) (conversion : Bytes) :
    Printing :=
  match letter with
  | 98 =>
    let (word?, printing) := printing.next
    let resolved := resolve 0 (word?.getD [])
    let printing := printing.write (fitting.cut resolved.text)
    { printing with isOver := resolved.isCut }
  | 99 =>
    let (word?, printing) := printing.next
    printing.write (fitting.pad [(word?.getD []).headD 0])
  | 115 =>
    let (word?, printing) := printing.next
    printing.write (fitting.cut (word?.getD []))
  | 100 | 105 =>
    let (value, printing) := printing.nextSigned
    printing.write (fitting.integer (fitting.sign (value < 0)) (Bytes.ofNat value.natAbs))
  | 111 => printing.writeUnsigned fitting 8 [] false
  | 117 => printing.writeUnsigned { fitting with alternate := false } 10 [] false
  | 120 => printing.writeUnsigned fitting 16 "0x" false
  | 88 => printing.writeUnsigned fitting 16 "0X" true
  | _ =>
    if [97, 101, 102, 103].contains (Byte.toLower letter) then
      let (value, printing) := printing.nextFloating
      printing.write (fitting.floating letter value)
    else printing.abort (conversion ++ ": invalid directive")

/-- The number that a format gives at its front, or that the next word gives for a star in 32 bits,
what follows it, and the state after it. -/
def measure (printing : Printing) (format : Bytes) : Int × Bytes × Printing :=
  match format with
  | 42 :: rest =>
    let (value, printing) := printing.nextSigned
    (Int.bmod value 4294967296, rest, printing)
  | _ =>
    let digits := format.takeWhile Byte.isDigit
    (Decimal.value digits, format.drop digits.length, printing)

/-- Writes what a percent sign and the format after it ask for, and gives the format after that. -/
def directive (printing : Printing) (format : Bytes) : Printing × Bytes :=
  let isFlag := fun (byte : UInt8) => [35, 45, 43, 32, 48].contains byte
  let flags := format.takeWhile isFlag
  let (width, rest, printing) := printing.measure (format.dropWhile isFlag)
  let (precision, rest, printing) := match rest with
    | 46 :: rest =>
      let (precision, rest, printing) := printing.measure rest
      (if precision < 0 then none else some precision.toNat, rest, printing)
    | rest => (none, rest, printing)
  match rest with
  | [] => (printing.abort "missing format character", [])
  | letter :: after =>
    let fitting : Fitting :=
      { alternate := flags.contains 35, leftAligned := flags.contains 45 || width < 0
        zeroFilled := flags.contains 48, plusSign := flags.contains 43
        spaceSign := flags.contains 32, width := width.natAbs, precision }
    let conversion := 37 :: format.take (format.length - after.length)
    (printing.convert fitting letter conversion, after)

/-- Writes a format once; the fuel bounds its parts. -/
def formatOnce : Nat → Bytes → Printing → Printing
  | 0, _, printing => printing
  | fuel + 1, format, printing =>
    if printing.isOver then printing
    else
      match format with
      | [] => printing
      | 92 :: rest =>
        match escape? false rest with
        | some (value, length) => formatOnce fuel (rest.drop length) (printing.write [value])
        | none => formatOnce fuel rest (printing.write [92])
      | 37 :: 37 :: rest => formatOnce fuel rest (printing.write [37])
      | 37 :: rest =>
        let (printing, rest) := printing.directive rest
        formatOnce fuel rest printing
      | byte :: rest => formatOnce fuel rest (printing.write [byte])

/-- Writes a format again and again until no words are left; the fuel bounds the repetitions. A
format that takes no words is written once. -/
def formatAll (format : Bytes) : Nat → Printing → Printing
  | 0, printing => printing
  | fuel + 1, printing =>
    let after := formatOnce (format.length + 1) format printing
    if after.isOver || after.words.isEmpty || after.words.length == printing.words.length then after
    else formatAll format fuel after

end Printing

/-- What `printf` does with a format and words. -/
def printf (format : Bytes) (words : List Bytes) : Printing :=
  Printing.formatAll format (words.length + 1) { words }

end KnightLang.Shell
