import KnightLang.Error

/-!
Arithmetic on 64-bit words. Unchecked, results are reduced modulo 2^64; checked, a result that does
not fit is an overflow.
-/

namespace KnightLang.Arithmetic

def least : Int64 := Int64.minValue

def add (checked : Bool) (left right : Int64) : Except Reason Int64 :=
  let sum := left + right
  if checked && ((left ^^^ sum) &&& (right ^^^ sum)) < 0 then
    .error (.overflow "+" left right)
  else .ok sum

def subtract (checked : Bool) (left right : Int64) : Except Reason Int64 :=
  let difference := left - right
  if checked && ((left ^^^ right) &&& (left ^^^ difference)) < 0 then
    .error (.overflow "-" left right)
  else .ok difference

def multiply (checked : Bool) (left right : Int64) : Except Reason Int64 :=
  let product := left * right
  if checked && left != 0 && (product / left != right || (left == -1 && right == least)) then
    .error (.overflow "*" left right)
  else .ok product

/-- The quotient, rounded toward zero. -/
def divide (checked : Bool) (left right : Int64) : Except Reason Int64 :=
  if right == 0 then .error (.dividedByZero left)
  else if checked && left == least && right == -1 then .error (.overflow "/" left right)
  else .ok (left / right)

/-- The remainder, which has the sign of the dividend. -/
def remainder (left right : Int64) : Except Reason Int64 :=
  if right == 0 then .error (.reducedByZero left) else .ok (left % right)

def negate (checked : Bool) (operand : Int64) : Except Reason Int64 :=
  if checked && operand == least then .error (.negationOverflow operand) else .ok (-operand)

/-- Multiplies `product` with `base` to the `exponent`, by repeated squaring. -/
def powerLoop (checked : Bool) (product base : Int64) (exponent : Nat) : Except Reason Int64 :=
  if exponent = 0 then .ok product
  else
    match if exponent % 2 = 1 then multiply checked product base else .ok product with
    | .error reason => .error reason
    | .ok product =>
      if exponent / 2 = 0 then .ok product
      else
        match multiply checked base base with
        | .error reason => .error reason
        | .ok square => powerLoop checked product square (exponent / 2)
termination_by exponent
decreasing_by omega

/-- Integer power. A negative exponent gives zero except for the bases 1 and -1. -/
def power (checked : Bool) (base exponent : Int64) : Except Reason Int64 :=
  if base == 1 then .ok 1
  else if base == -1 then .ok (if exponent &&& 1 != 0 then -1 else 1)
  else if exponent == 0 then .ok 1
  else if exponent < 0 then .ok 0
  else
    match powerLoop checked 1 base exponent.toNatClampNeg with
    | .error _ => .error (.overflow "^" base exponent)
    | .ok product => .ok product

end KnightLang.Arithmetic
