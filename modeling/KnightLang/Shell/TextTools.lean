import KnightLang.Shell.Format
import KnightLang.Shell.Pattern

/-!
What programs that work on lines and bytes make of a text.
-/

namespace KnightLang.Shell

namespace TextTools

/-- The lines of a text with their ends; the fuel bounds their number. -/
def linesWithin : Nat → Bytes → List Bytes
  | 0, _ => []
  | fuel + 1, text =>
    if text.isEmpty then []
    else
      let line := text.takeWhile (· != Byte.newline)
      let after := text.drop line.length
      (line ++ after.take 1) :: linesWithin fuel (after.drop 1)

def lines (text : Bytes) : List Bytes := linesWithin (text.length + 1) text

/-- The number of words of a text; `isInside` says whether it starts inside of a word. -/
def wordCount : Bool → Bytes → Nat
  | _, [] => 0
  | isInside, byte :: rest =>
    if Byte.isSpace byte then wordCount false rest
    else wordCount true rest + if isInside then 0 else 1

/-- A part of a text at its front or end, given by the number of its lines or bytes. -/
structure Portion where
  atEnd : Bool
  inBytes : Bool := false
  count : Nat := 10
  deriving DecidableEq, Repr

def Portion.of (portion : Portion) (text : Bytes) : Bytes :=
  let pieces := if portion.inBytes then text.map fun byte => [byte] else lines text
  if portion.atEnd then (pieces.drop (pieces.length - portion.count)).flatten
  else (pieces.take portion.count).flatten

/-- How lines are put in order. -/
structure LineOrder where
  byNumber : Bool := false
  isReversed : Bool := false
  onlyDistinct : Bool := false
  deriving DecidableEq, Repr

def leadingNumber (line : Bytes) : Int :=
  let (isNegative, digits) := match line.dropWhile Byte.isSpace with
    | 45 :: rest => (true, rest)
    | rest => (false, rest)
  let size : Int := Decimal.value (digits.takeWhile Byte.isDigit)
  if isNegative then -size else size

/-- Whether a line may stand before another one. Lines with the same number are in the order of
their bytes. -/
def LineOrder.le (order : LineOrder) (left right : Bytes) : Bool :=
  let (left, right) := if order.isReversed then (right, left) else (left, right)
  if order.byNumber && leadingNumber left != leadingNumber right then
    leadingNumber left < leadingNumber right
  else !(right < left)

/-- Leaves out every line that is the same as the one before it. -/
def distinct (order : LineOrder) : Option Bytes → List Bytes → List Bytes
  | _, [] => []
  | previous, line :: rest =>
    let isSame := match previous with
      | some previous =>
        if order.byNumber then leadingNumber previous == leadingNumber line else previous == line
      | none => false
    if isSame then distinct order previous rest else line :: distinct order (some line) rest

def sort (order : LineOrder) (text : Bytes) : Bytes :=
  let bare := (lines text).map fun line => Bytes.dropRightWhile (· == Byte.newline) line
  let sorted := bare.mergeSort order.le
  let kept := if order.onlyDistinct then distinct order none sorted else sorted
  kept.flatMap fun line => line ++ [Byte.newline]

/-- The bytes of a range, with both its ends. -/
def range (first last : UInt8) : Bytes :=
  (List.range (last.toNat + 1 - first.toNat)).map fun offset =>
    UInt8.ofNat (first.toNat + offset)

/-- The bytes that a description of a set lists, in order; the fuel bounds its parts. A range out of
order is given back as the problem. -/
def members : Nat → Bytes → Except Bytes Bytes
  | 0, _ => .ok []
  | fuel + 1, text =>
    let single : Option (UInt8 × Bytes) := match text with
      | [] => none
      | 92 :: rest =>
        match escape? false rest with
        | some (byte, length) => some (byte, rest.drop length)
        | none => some (rest.headD 92, rest.drop 1)
      | byte :: rest => some (byte, rest)
    match text, single with
    | 91 :: 58 :: rest, _ =>
      let name := rest.takeWhile Byte.isLower
      match Pattern.classRanges? name, rest.drop name.length with
      | some ranges, 58 :: 93 :: rest => do
        let others ← members fuel rest
        return ranges.flatMap (fun (first, last) => range first last) ++ others
      | _, _ => do return 91 :: (← members fuel (58 :: rest))
    | _, none => .ok []
    | _, some (first, 45 :: last :: rest) =>
      if last < first then .error [first, 45, last]
      else do return range first last ++ (← members fuel rest)
    | _, some (first, rest) => do return first :: (← members fuel rest)

/-- What happens to the bytes of a set. -/
structure Exchange where
  /-- Takes the bytes that are not in the first set. -/
  isInverted : Bool := false
  deletes : Bool := false
  /-- Leaves out bytes that repeat the one before them. -/
  squeezes : Bool := false
  deriving DecidableEq, Repr

/-- Leaves out bytes of a set that repeat the one before them. -/
def squeeze (set : Bytes) : Option UInt8 → Bytes → Bytes
  | _, [] => []
  | previous, byte :: rest =>
    if previous == some byte && set.contains byte then squeeze set previous rest
    else byte :: squeeze set (some byte) rest

/-- Exchanges the bytes of one set for those of another one, deletes them or leaves out
repetitions. The last byte of a short second set stands for all that are missing. -/
def exchange (how : Exchange) (taken given : Bytes) (text : Bytes) : Bytes :=
  let set := if how.isInverted then (range 0 255).filter fun byte => !taken.contains byte else taken
  if how.deletes then
    let kept := text.filter fun byte => !set.contains byte
    if how.squeezes then squeeze given none kept else kept
  else if given.isEmpty then squeeze set none text
  else
    let changed := text.map fun byte =>
      match (set.reverse.zip (List.range set.length).reverse).lookup byte with
      | some index => (given[index]?).getD (given.getLast?.getD byte)
      | none => byte
    if how.squeezes then squeeze given none changed else changed

end TextTools

end KnightLang.Shell
