import KnightLang.Store

/-!
Operations on strings. Each one gives a string with a reference for its caller: a shared string, an
operand with one more reference, or a new string. Operands are never released. A new string is put
together in a buffer of its length.
-/

namespace KnightLang

/-- A piece of memory that a string is put together in. -/
abbrev Buffer := Array UInt8

namespace Buffer

def alloc (size : Nat) : Buffer := Array.replicate size 0

/-- Copies bytes to a position, as many as there is room for. -/
def copy (buffer : Buffer) (position : Nat) : Bytes → Buffer
  | [] => buffer
  | byte :: rest => copy (buffer.setIfInBounds position byte) (position + 1) rest

/-- Copies parts to a position, each behind the one before it. -/
def copyAll (buffer : Buffer) (position : Nat) : List Bytes → Buffer
  | [] => buffer
  | part :: rest => copyAll (buffer.copy position part) (position + part.length) rest

@[simp]
theorem size_copy (buffer : Buffer) (position : Nat) (bytes : Bytes) :
    (buffer.copy position bytes).size = buffer.size := by
  induction bytes generalizing buffer position with
  | nil => rfl
  | cons byte rest ih => rw [copy, ih, Array.size_setIfInBounds]

/-- Copies the same bytes to a position, behind that, and so on until the buffer is full. -/
def fill (buffer : Buffer) (position : Nat) (bytes : Bytes) : Buffer :=
  if position < buffer.size ∧ bytes ≠ [] then
    fill (buffer.copy position bytes) (position + bytes.length) bytes
  else buffer
termination_by buffer.size - position
decreasing_by
  next hroom =>
    have hpos := List.length_pos_iff.mpr hroom.2
    rw [size_copy]
    omega

end Buffer

namespace Store

variable [Custody]

/-- The longest string that the operations build. -/
def maxTextLength : Nat := 1073741824

/-- How much of a length lies within a string of the given size from a position on. -/
def clamp {number : Type} [Sub number] [LT number] [DecidableLT number]
    (size start length : number) : number :=
  if size - start < length then size - start else length

def share (text : TextRef) : StoreM (Except Reason TextRef) := do
  Custody.retain (.string text)
  return .ok text

def concat (first second : TextRef) : StoreM (Except Reason TextRef) := do
  let store ← get
  let front := store.bytes first
  let back := store.bytes second
  if front.isEmpty then share second
  else if back.isEmpty then share first
  else if front.length + back.length > maxTextLength then
    return .error (.textTooLong (front.length + back.length))
  else
    let buffer := Buffer.alloc (front.length + back.length)
    return .ok (← addText (buffer.copyAll 0 [front, back]).toList)

def replicate (text : TextRef) (count : Int64) : StoreM (Except Reason TextRef) := do
  let contents := (← get).bytes text
  if count < 0 then return .error (.negativeCount count)
  else if count == 0 || contents.isEmpty then return .ok (.static .empty)
  else if count == 1 then share text
  else if count > Int64.ofNat (maxTextLength / contents.length) then
    return .error (.repetitionTooLong contents.length count)
  else
    let buffer := Buffer.alloc (contents.length * count.toNatClampNeg)
    return .ok (← addText (buffer.fill 0 contents).toList)

/-- The part of the string that begins at `start` and is at most `length` bytes long. -/
def substring (text : TextRef) (start length : Int64) : StoreM (Except Reason TextRef) := do
  let contents := (← get).bytes text
  let size : Int := contents.length
  if start < 0 || length < 0 then return .error (.negativeSubstring start length)
  else if size ≤ start.toInt || length == 0 then return .ok (.static .empty)
  else
    let taken := clamp size start.toInt length.toInt
    if start == 0 && taken == size then share text
    else return .ok (← intern ((contents.drop start.toNatClampNeg).take taken.toNat))

/-- The string with the part that begins at `start` and is at most `length` bytes long replaced.
A start at the end appends; one past the end fails. -/
def splice (text : TextRef) (start length : Int64) (replacement : TextRef) :
    StoreM (Except Reason TextRef) := do
  let store ← get
  let contents := store.bytes text
  let inserted := store.bytes replacement
  let size : Int := contents.length
  if start < 0 || length < 0 then return .error (.negativeSubstitution start length)
  else if size < start.toInt then return .error (.startPastEnd start contents.length)
  else
    let removed := clamp size start.toInt length.toInt
    let total := size - removed + inserted.length
    if total == 0 then return .ok (.static .empty)
    else if total > maxTextLength then return .error (.textTooLong total.toNat)
    else if removed == size then share replacement
    else if removed == 0 && inserted.isEmpty then share text
    else
      let front := contents.take start.toNatClampNeg
      let back := contents.drop (start.toInt + removed).toNat
      return .ok (← addText ((Buffer.alloc total.toNat).copyAll 0 [front, inserted, back]).toList)

end Store

end KnightLang
