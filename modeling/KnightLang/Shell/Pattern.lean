import KnightLang.Bytes

/-!
Patterns for texts and file names: a star stands for any text, a question mark for any byte, and
brackets for one of some bytes. What is in quotes stands for itself.
-/

namespace KnightLang.Shell

/-- A byte of a filled-in word, and whether it stands for itself in a pattern. -/
structure Glyph where
  byte : UInt8
  isLiteral : Bool
  deriving DecidableEq, Repr

/-- What a part of a pattern stands for. -/
inductive Matcher where
  | exactly (byte : UInt8)
  | anyByte
  | anyText
  /-- A byte in some ranges, or outside of all of them. -/
  | among (isInverted : Bool) (ranges : List (UInt8 × UInt8))
  deriving DecidableEq, Repr

namespace Pattern

def classRanges? (name : Bytes) : Option (List (UInt8 × UInt8)) :=
  let classes : List (Bytes × List (UInt8 × UInt8)) :=
    [("alnum", [(48, 57), (65, 90), (97, 122)]), ("alpha", [(65, 90), (97, 122)]),
      ("blank", [(9, 9), (32, 32)]), ("cntrl", [(0, 31), (127, 127)]), ("digit", [(48, 57)]),
      ("graph", [(33, 126)]), ("lower", [(97, 122)]), ("print", [(32, 126)]),
      ("punct", [(33, 47), (58, 64), (91, 96), (123, 126)]), ("space", [(9, 13), (32, 32)]),
      ("upper", [(65, 90)]), ("xdigit", [(48, 57), (65, 70), (97, 102)])]
  classes.lookup name

/-- Whether a glyph is the given sign, and not in quotes. -/
def isSign (glyph : Glyph) (sign : UInt8) : Bool := glyph.byte == sign && !glyph.isLiteral

/-- The ranges between brackets and what follows the closing one. Right after the opening one, a
closing bracket stands for itself. -/
def ranges? : Nat → Bool → List Glyph → Option (List (UInt8 × UInt8) × List Glyph)
  | 0, _, _ => none
  | _ + 1, _, [] => none
  | fuel + 1, isFirst, glyph :: rest =>
    if isSign glyph 93 && !isFirst then some ([], rest)
    else
      let named? : Option (List (UInt8 × UInt8) × List Glyph) :=
        match rest with
        | colon :: after =>
          if isSign glyph 91 && isSign colon 58 then
            let name := after.takeWhile fun glyph => Byte.isLower glyph.byte
            match after.drop name.length with
            | second :: closing :: after =>
              if isSign second 58 && isSign closing 93 then
                (classRanges? (name.map Glyph.byte)).map fun found => (found, after)
              else none
            | _ => none
          else none
        | [] => none
      match named? with
      | some (found, after) =>
        (ranges? fuel false after).map fun (others, rest) => (found ++ others, rest)
      | none =>
        match rest with
        | hyphen :: last :: after =>
          if isSign hyphen 45 && !isSign last 93 then
            (ranges? fuel false after).map fun (others, rest) =>
              ((glyph.byte, last.byte) :: others, rest)
          else
            (ranges? fuel false rest).map fun (others, rest) =>
              ((glyph.byte, glyph.byte) :: others, rest)
        | _ =>
          (ranges? fuel false rest).map fun (others, rest) =>
            ((glyph.byte, glyph.byte) :: others, rest)

/-- What the glyphs of a pattern stand for; the fuel bounds their number. -/
def matchers : Nat → List Glyph → List Matcher
  | 0, _ => []
  | _ + 1, [] => []
  | fuel + 1, glyph :: rest =>
    if isSign glyph 42 then .anyText :: matchers fuel rest
    else if isSign glyph 63 then .anyByte :: matchers fuel rest
    else if isSign glyph 91 then
      let (isInverted, inside) := match rest with
        | first :: after => if isSign first 33 then (true, after) else (false, rest)
        | [] => (false, rest)
      match ranges? (inside.length + 1) true inside with
      | some (found, after) => .among isInverted found :: matchers fuel after
      | none => .exactly glyph.byte :: matchers fuel rest
    else if isSign glyph 92 then
      match rest with
      | next :: after => .exactly next.byte :: matchers fuel after
      | [] => [.exactly 92]
    else .exactly glyph.byte :: matchers fuel rest

def ofGlyphs (glyphs : List Glyph) : List Matcher := matchers glyphs.length glyphs

/-- Whether a matcher other than one for any text accepts a byte. -/
def acceptsByte (matcher : Matcher) (byte : UInt8) : Bool :=
  match matcher with
  | .exactly expected => byte == expected
  | .anyByte => true
  | .anyText => false
  | .among isInverted ranges =>
    (ranges.any fun range => range.1 ≤ byte && byte ≤ range.2) != isInverted

def accepts : List Matcher → Bytes → Bool
  | [], text => text.isEmpty
  | .anyText :: rest, text => (List.range (text.length + 1)).any fun skipped =>
      accepts rest (text.drop skipped)
  | matcher :: rest, byte :: text => acceptsByte matcher byte && accepts rest text
  | _ :: _, [] => false

def isOpen (matchers : List Matcher) : Bool :=
  matchers.any fun matcher => !(matcher matches .exactly _)

/-- A text without what a pattern matches at its front or end. -/
def trim (atEnd longest : Bool) (matchers : List Matcher) (text : Bytes) : Bytes :=
  let lengths := List.range (text.length + 1)
  let lengths := if longest then lengths.reverse else lengths
  let cut := fun (length : Nat) =>
    if atEnd then (text.drop (text.length - length), text.take (text.length - length))
    else (text.take length, text.drop length)
  match lengths.find? fun length => accepts matchers (cut length).1 with
  | some length => (cut length).2
  | none => text

end Pattern

end KnightLang.Shell
